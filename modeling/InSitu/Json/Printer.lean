import InSitu.Json.Value
namespace InSitu.Json

structure Style where
  lineBreak : Nat → List Char
  colon : List Char

def Style.compact : Style := ⟨fun _ => [], [':']⟩

def Style.indented : Style := ⟨fun depth => '\n' :: List.replicate (2 * depth) ' ', [':', ' ']⟩

def hexDigit (n : Nat) : Char := (Nat.toDigits 16 n).headD '0'

def escaped (c : Char) : List Char :=
  if c = '"' then ['\\', '"']
  else if c = '\\' then ['\\', '\\']
  else if c = '\x08' then ['\\', 'b']
  else if c = '\t' then ['\\', 't']
  else if c = '\n' then ['\\', 'n']
  else if c = '\x0c' then ['\\', 'f']
  else if c = '\r' then ['\\', 'r']
  else if c.toNat < 0x20 then
    ['\\', 'u', '0', '0', hexDigit (c.toNat / 16), hexDigit (c.toNat % 16)]
  else [c]

def quoted (content : String) : List Char :=
  '"' :: content.toList.flatMap escaped ++ ['"']

-- Half of a pair, spelled so that it is read as one again.
def unpairedText : List Char := ['"', '\\', 'u', 'd', '8', '0', '0', '"']

def key : Option String → List Char
  | some content => quoted content
  | none => unpairedText

def enclosed (style : Style) (depth : Nat) (left right : Char) : List (List Char) → List Char
  | [] => [left, right]
  | items => left :: style.lineBreak (depth + 1) ++
      (List.intercalate (',' :: style.lineBreak (depth + 1)) items) ++
      style.lineBreak depth ++ [right]

mutual

def print (style : Style) (depth : Nat) : Json → List Char
  | .null => ['n', 'u', 'l', 'l']
  | .bool true => ['t', 'r', 'u', 'e']
  | .bool false => ['f', 'a', 'l', 's', 'e']
  | .number spelling => spelling
  | .text content => quoted content
  | .unpaired => unpairedText
  | .array items => enclosed style depth '[' ']' (printItems style (depth + 1) items)
  | .object members => enclosed style depth '{' '}' (printMembers style (depth + 1) members)

def printItems (style : Style) (depth : Nat) : List Json → List (List Char)
  | [] => []
  | item :: rest => print style depth item :: printItems style depth rest

def printMembers (style : Style) (depth : Nat) : List (Option String × Json) → List (List Char)
  | [] => []
  | (name, value) :: rest =>
    (key name ++ style.colon ++ print style depth value) :: printMembers style depth rest

end

def compact (value : Json) : String := .ofList (print .compact 0 value)

def indented (value : Json) : String := .ofList (print .indented 0 value)

end InSitu.Json
