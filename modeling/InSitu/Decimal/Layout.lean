import InSitu.Decimal.Shortest
namespace InSitu.Decimal

structure Layout where
  tie : Tie
  least : Option Int
  limit : Option Int
  pointed : Bool

-- Numbers in data files: plain from 0.00001 up to sixteen places before the point, and always with
-- a fraction there. A tie goes to the even digit.
def Layout.json : Layout := ⟨.even, some (-5), some 16, true⟩

-- Numbers in messages and index files: never an exponent, no fraction for a whole number. A tie
-- goes up, away from zero.
def Layout.plain : Layout := ⟨.up, none, none, false⟩

def Layout.isPlain (layout : Layout) (exponent : Int) : Bool :=
  layout.least.all (· ≤ exponent) && layout.limit.all (exponent < ·)

def zeros (n : Nat) : List Char := List.replicate n '0'

def placed (pointed : Bool) (s : Significant) : List Char :=
  if s.exponent < 0 then ['0', '.'] ++ zeros ((-s.exponent).toNat - 1) ++ s.digits
  else
    let places := s.exponent.toNat + 1
    let whole := s.digits.take places ++ zeros (places - s.digits.length)
    match s.digits.drop places with
    | [] => if pointed then whole ++ ['.', '0'] else whole
    | fraction => whole ++ ['.'] ++ fraction

def scientific (s : Significant) : List Char :=
  let lead := match s.digits with
    | first :: second :: rest => first :: '.' :: second :: rest
    | digits => digits
  let mark := if s.exponent < 0 then '-' else '+'
  lead ++ ['e', mark] ++ digitChars s.exponent.natAbs

def Layout.magnitude (layout : Layout) (bits : Nat) : List Char :=
  if bits = 0 then placed layout.pointed ⟨['0'], 0⟩
  else
    let s := (shortest layout.tie bits).significant
    if layout.isPlain s.exponent then placed layout.pointed s else scientific s

def signBit : Nat := Nat.pow 2 63

def finiteBits (bits : Nat) : Bool := bits % signBit < infinityBits

def Layout.finite (layout : Layout) (bits : Nat) : List Char :=
  (if signBit ≤ bits then ['-'] else []) ++ layout.magnitude (bits % signBit)

def text (x : Float) : String :=
  let bits := x.toBits.toNat
  if finiteBits bits then .ofList (Layout.plain.finite bits)
  else if x.isNaN then "NaN"
  else if signBit ≤ bits then "-inf"
  else "inf"

end InSitu.Decimal
