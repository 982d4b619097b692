import InSitu.Json.Value
namespace InSitu.Json

-- The values given for `names`, in that order. A field is absent if no member has its name, or if
-- the array ends before it. No answer for a repeated field, a key that is no text, a longer array.
def fields? (names : List String) : Json → Option (List (Option Json))
  | .object members =>
    if members.any (·.1.isNone) then none
    else if names.any fun name => 1 < members.countP (·.1 == some name) then none
    else some (names.map fun name => (members.find? (·.1 == some name)).map (·.2))
  | .array items =>
    if names.length < items.length then none
    else some (items.map some ++ List.replicate (names.length - items.length) none)
  | _ => none

def content? : Option Json → Option String
  | some (.text content) => some content
  | _ => none

def optional? : Option Json → Option (Option String)
  | none => some none
  | some .null => some none
  | some (.text content) => some (some content)
  | _ => none

def natBelow? (limit : Nat) : Option Json → Option Nat
  | some (.number spelling) => do
    let size ← (← Numeral.ofChars? spelling).nat?
    if size < limit then some size else none
  | _ => none

def double? : Option Json → Option Float
  | some (.number spelling) => (Numeral.ofChars? spelling).bind Numeral.double?
  | _ => none

def items? (item? : Option Json → Option α) : Option Json → Option (List α)
  | some (.array items) => items.mapM fun item => item? (some item)
  | _ => none

def ofFields (fields : List (String × Option Json)) : Json :=
  .object (fields.filterMap fun (name, value) => value.map fun v => (some name, v))

end InSitu.Json
