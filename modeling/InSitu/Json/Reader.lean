import InSitu.Json.Value
namespace InSitu.Json

inductive TextUnit where
  | char (c : Char)
  | escape (code : Nat)

def isHigh (n : Nat) : Bool := 0xd800 ≤ n && n < 0xdc00

def isLow (n : Nat) : Bool := 0xdc00 ≤ n && n < 0xe000

-- A high half joins with the low half behind it. Any other half denotes nothing.
def joinUnits : List TextUnit → Option (List Char)
  | [] => some []
  | .char c :: rest => (joinUnits rest).map (c :: ·)
  | .escape high :: .escape low :: rest =>
    if isHigh high && isLow low then
      (joinUnits rest).map (Char.ofNat (0x10000 + (high - 0xd800) * 0x400 + (low - 0xdc00)) :: ·)
    else if isHigh high || isLow high then none
    else (joinUnits (.escape low :: rest)).map (Char.ofNat high :: ·)
  | .escape code :: rest =>
    if isHigh code || isLow code then none
    else (joinUnits rest).map (Char.ofNat code :: ·)

inductive Frame where
  | array (items : List Json)
  | object (members : List (Option String × Json))
  | member (members : List (Option String × Json)) (key : Option String)

inductive Phase where
  | plain
  | escaped
  | hex (left : Nat) (code : Nat)

inductive Mode where
  | value
  | firstItem
  | key
  | firstKey
  | colon (key : Option String)
  | separator
  -- Pieces and spellings are kept last character first.
  | text (asKey : Bool) (units : List TextUnit) (phase : Phase)
  | number (spelling : List Char)
  | word (spelling : List Char)
  | finished (value : Json)

structure Reader where
  mode : Mode
  frames : List Frame

def Reader.initial : Reader := ⟨.value, []⟩

def complete (value : Json) : List Frame → Option Reader
  | [] => some ⟨.finished value, []⟩
  | .array items :: outer => some ⟨.separator, .array (value :: items) :: outer⟩
  | .member members key :: outer => some ⟨.separator, .object ((key, value) :: members) :: outer⟩
  | .object _ :: _ => none

def isBlank (c : Char) : Bool := c = ' ' || c = '\t' || c = '\n' || c = '\r'

def isNumeralChar (c : Char) : Bool :=
  c.isDigit || c = '-' || c = '+' || c = '.' || c = 'e' || c = 'E'

def startValue (c : Char) (outer : List Frame) : Option Reader :=
  if c = '"' then some ⟨.text false [] .plain, outer⟩
  else if c = '[' then some ⟨.firstItem, .array [] :: outer⟩
  else if c = '{' then some ⟨.firstKey, .object [] :: outer⟩
  else if c = '-' || c.isDigit then some ⟨.number [c], outer⟩
  else if c.isAlpha then some ⟨.word [c], outer⟩
  else none

def closeArray : List Frame → Option Reader
  | .array items :: outer => complete (.array items.reverse) outer
  | _ => none

def closeObject : List Frame → Option Reader
  | .object members :: outer => complete (.object members.reverse) outer
  | _ => none

def separate (c : Char) (frames : List Frame) : Option Reader :=
  match frames with
  | .array _ :: _ =>
    if c = ',' then some ⟨.value, frames⟩ else if c = ']' then closeArray frames else none
  | .object _ :: _ =>
    if c = ',' then some ⟨.key, frames⟩ else if c = '}' then closeObject frames else none
  | _ => none

def hexValue? (c : Char) : Option Nat :=
  if c.isDigit then some (c.toNat - '0'.toNat)
  else if 'a' ≤ c ∧ c ≤ 'f' then some (10 + c.toNat - 'a'.toNat)
  else if 'A' ≤ c ∧ c ≤ 'F' then some (10 + c.toNat - 'A'.toNat)
  else none

def simpleEscape? (c : Char) : Option Char :=
  if c = '"' || c = '\\' || c = '/' then some c
  else if c = 'b' then some '\x08'
  else if c = 't' then some '\t'
  else if c = 'n' then some '\n'
  else if c = 'f' then some '\x0c'
  else if c = 'r' then some '\r'
  else none

def closeText (asKey : Bool) (units : List TextUnit) (frames : List Frame) : Option Reader :=
  let content := (joinUnits units.reverse).map String.ofList
  if asKey then some ⟨.colon content, frames⟩
  else complete (content.elim .unpaired .text) frames

def stepText (asKey : Bool) (units : List TextUnit) (phase : Phase) (frames : List Frame)
    (c : Char) : Option Reader :=
  match phase with
  | .plain =>
    if c = '"' then closeText asKey units frames
    else if c = '\\' then some ⟨.text asKey units .escaped, frames⟩
    else if c.toNat < 0x20 then none
    else some ⟨.text asKey (.char c :: units) .plain, frames⟩
  | .escaped =>
    if c = 'u' then some ⟨.text asKey units (.hex 4 0), frames⟩
    else (simpleEscape? c).map fun e => ⟨.text asKey (.char e :: units) .plain, frames⟩
  | .hex left code => do
    let digit ← hexValue? c
    let next := 16 * code + digit
    if left ≤ 1 then return ⟨.text asKey (.escape next :: units) .plain, frames⟩
    else return ⟨.text asKey units (.hex (left - 1) next), frames⟩

def word? (spelling : List Char) : Option Json :=
  if spelling = ['n', 'u', 'l', 'l'] then some .null
  else if spelling = ['t', 'r', 'u', 'e'] then some (.bool true)
  else if spelling = ['f', 'a', 'l', 's', 'e'] then some (.bool false)
  else none

-- A number or a word has no closing mark: it ends where its characters end.
def settle (r : Reader) : Option Reader :=
  match r.mode with
  | .number spelling =>
    if (Numeral.ofChars? spelling.reverse).isSome then complete (.number spelling.reverse) r.frames
    else none
  | .word spelling => (word? spelling.reverse).bind fun value => complete value r.frames
  | _ => some r

def advance (r : Reader) (c : Char) : Option Reader :=
  if isBlank c then some r
  else match r.mode with
    | .value => startValue c r.frames
    | .firstItem => if c = ']' then closeArray r.frames else startValue c r.frames
    | .key => if c = '"' then some ⟨.text true [] .plain, r.frames⟩ else none
    | .firstKey =>
      if c = '}' then closeObject r.frames
      else if c = '"' then some ⟨.text true [] .plain, r.frames⟩
      else none
    | .colon key =>
      match r.frames with
      | .object members :: outer =>
        if c = ':' then some ⟨.value, .member members key :: outer⟩ else none
      | _ => none
    | .separator => separate c r.frames
    | _ => none

def step (r : Reader) (c : Char) : Option Reader :=
  match r.mode with
  | .text asKey units phase => stepText asKey units phase r.frames c
  | .number spelling =>
    if isNumeralChar c then some ⟨.number (c :: spelling), r.frames⟩
    else (settle r).bind (advance · c)
  | .word spelling =>
    if c.isAlpha then some ⟨.word (c :: spelling), r.frames⟩ else (settle r).bind (advance · c)
  | _ => advance r c

def finish (r : Reader) : Option Json := do
  let settled ← settle r
  match settled.mode with
  | .finished value => return value
  | _ => none

def read? (content : String) : Option Json :=
  (content.toList.foldlM step .initial).bind finish

end InSitu.Json
