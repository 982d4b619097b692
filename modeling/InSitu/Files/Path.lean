namespace InSitu

-- A character, or a part of the bytes that is not one. A stray part is never empty.
inductive PathUnit where
  | char (c : Char)
  | stray (bytes : List UInt8)
  deriving DecidableEq, Repr

structure Path where
  units : List PathUnit
  deriving DecidableEq, Repr

abbrev PathName := List PathUnit

namespace Path

structure Begun where
  bytes : List UInt8
  bits : Nat
  left : Nat
  least : UInt8
  greatest : UInt8

-- Second bytes are narrowed where a wider one would give an overlong form, a surrogate, or a number
-- beyond the last character.
def begin? (b : UInt8) : Option Begun :=
  let n := b.toNat
  if 0xc2 ≤ n ∧ n ≤ 0xdf then some ⟨[b], n - 0xc0, 1, 0x80, 0xbf⟩
  else if n = 0xe0 then some ⟨[b], 0, 2, 0xa0, 0xbf⟩
  else if n = 0xed then some ⟨[b], 0xd, 2, 0x80, 0x9f⟩
  else if 0xe1 ≤ n ∧ n ≤ 0xef then some ⟨[b], n - 0xe0, 2, 0x80, 0xbf⟩
  else if n = 0xf0 then some ⟨[b], 0, 3, 0x90, 0xbf⟩
  else if 0xf1 ≤ n ∧ n ≤ 0xf3 then some ⟨[b], n - 0xf0, 3, 0x80, 0xbf⟩
  else if n = 0xf4 then some ⟨[b], 4, 3, 0x80, 0x8f⟩
  else none

def fresh (b : UInt8) : List PathUnit × Option Begun :=
  if b < 0x80 then ([.char (Char.ofNat b.toNat)], none)
  else match begin? b with
    | some begun => ([], some begun)
    | none => ([.stray [b]], none)

def Begun.add (g : Begun) (b : UInt8) : List PathUnit × Option Begun :=
  if g.least ≤ b ∧ b ≤ g.greatest then
    let bits := g.bits * 0x40 + (b.toNat - 0x80)
    if g.left ≤ 1 then ([.char (Char.ofNat bits)], none)
    else ([], some ⟨b :: g.bytes, bits, g.left - 1, 0x80, 0xbf⟩)
  else
    let (units, begun) := fresh b
    (.stray g.bytes.reverse :: units, begun)

def unitsFrom : Option Begun → List UInt8 → List PathUnit
  | none, [] => []
  | some begun, [] => [.stray begun.bytes.reverse]
  | begun, b :: rest =>
    let (units, next) := match begun with
      | none => fresh b
      | some g => g.add b
    units ++ unitsFrom next rest

def ofBytes (bytes : List UInt8) : Path := ⟨unitsFrom none bytes⟩

def ofString (s : String) : Path := ⟨s.toList.map .char⟩

def PathUnit.char? : PathUnit → Option Char
  | .char c => some c
  | .stray _ => none

def text? (p : Path) : Option String := (p.units.mapM PathUnit.char?).map String.ofList

def display (p : Path) : String :=
  .ofList (p.units.map fun unit => (PathUnit.char? unit).getD '\ufffd')

def isEmpty (p : Path) : Bool := p.units.isEmpty

def slash : PathUnit := .char '/'

def join (p : Path) (name : String) : Path :=
  let lower := ofString name
  if lower.units.head? = some slash ∨ p.isEmpty then lower
  else if p.units.getLast? = some slash then ⟨p.units ++ lower.units⟩
  else ⟨p.units ++ slash :: lower.units⟩

def names (p : Path) : List PathName := (p.units.splitOn slash).filter (· ≠ [])

def here : PathName := [.char '.']

def up : PathName := [.char '.', .char '.']

def namesDirectory (p : Path) : Bool := p.units.getLast? = some slash

end Path
end InSitu
