import InSitu.Decimal.Layout
import InSitu.Decimal.Stepwise
namespace InSitu

-- A string whose escapes leave half of a surrogate pair alone is valid syntax and denotes no text:
-- `unpaired`, and `none` for the key of a member.
inductive Json where
  | null
  | bool (value : Bool)
  | number (spelling : List Char)
  | text (content : String)
  | unpaired
  | array (items : List Json)
  | object (members : List (Option String × Json))

namespace Json

structure Numeral where
  negative : Bool
  whole : List Char
  fraction : Option (List Char)
  exponent : Option Int

def digitsValue (digits : List Char) : Nat :=
  digits.foldl (fun value c => 10 * value + (c.toNat - '0'.toNat)) 0

def exponent? : List Char → Option (Option Int)
  | [] => some none
  | mark :: rest =>
    if mark = 'e' ∨ mark = 'E' then
      let (negative, digits) := match rest with
        | '-' :: digits => (true, digits)
        | '+' :: digits => (false, digits)
        | digits => (false, digits)
      if digits = [] ∨ digits.any (! Char.isDigit ·) then none
      else
        let size : Int := digitsValue digits
        some (some (if negative then -size else size))
    else none

def fraction? : List Char → Option (Option (List Char) × List Char)
  | '.' :: rest =>
    let digits := rest.takeWhile Char.isDigit
    if digits = [] then none else some (some digits, rest.dropWhile Char.isDigit)
  | rest => some (none, rest)

def Numeral.ofChars? (spelling : List Char) : Option Numeral :=
  let (negative, unsigned) := match spelling with
    | '-' :: rest => (true, rest)
    | rest => (false, rest)
  let whole := unsigned.takeWhile Char.isDigit
  if whole = [] ∨ (whole.head? = some '0' ∧ whole.length ≠ 1) then none
  else do
    let (fraction, rest) ← fraction? (unsigned.dropWhile Char.isDigit)
    let exponent ← exponent? rest
    return ⟨negative, whole, fraction, exponent⟩

def Numeral.scaled (n : Numeral) : Decimal.Scaled :=
  let fraction := n.fraction.getD []
  ⟨digitsValue (n.whole ++ fraction), n.exponent.getD 0 - fraction.length⟩

def Numeral.nat? (n : Numeral) : Option Nat :=
  if n.negative ∨ n.fraction.isSome ∨ n.exponent.isSome then none else some (digitsValue n.whole)

-- Digits written behind `value` while the number stays below `2 ^ 64`, and how many are left out:
-- all from the first one that does not fit.
def gather (value : Nat) : List Char → Nat × Nat
  | [] => (value, 0)
  | c :: rest =>
    let next := 10 * value + (c.toNat - '0'.toNat)
    if next < Nat.pow 2 64 then gather next rest else (value, rest.length + 1)

def Numeral.gathered (n : Numeral) : Decimal.Scaled :=
  let fraction := n.fraction.getD []
  let (whole, wholeLeft) := gather 0 n.whole
  let (digits, fractionLeft) := gather whole fraction
  ⟨digits, n.exponent.getD 0 + wholeLeft + fractionLeft - fraction.length⟩

def Numeral.signed (n : Numeral) (bits : Nat) : Float :=
  Float.ofBits (if n.negative then Decimal.signBit + bits else bits).toUInt64

def Numeral.nearest? (n : Numeral) : Option Float := (Decimal.nearest? n.scaled).map n.signed

def Numeral.double? (n : Numeral) : Option Float := (Decimal.stepwise? n.gathered).map n.signed

def ofNat (n : Nat) : Json := .number (Decimal.digitChars n)

def ofFloat (x : Float) : Json :=
  if Decimal.finiteBits x.toBits.toNat then .number (Decimal.Layout.json.finite x.toBits.toNat)
  else .null

end Json
end InSitu
