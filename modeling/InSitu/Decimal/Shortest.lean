import InSitu.Decimal.Rounding
namespace InSitu.Decimal

def Binary.expansion (b : Binary) : Scaled :=
  if 0 ≤ b.exponent then ⟨b.mantissa * Nat.pow 2 b.exponent.toNat, 0⟩
  else ⟨b.mantissa * Nat.pow 5 (-b.exponent).toNat, b.exponent⟩

def readsBack (bits : Nat) (d : Scaled) : Bool := nearest? d = some bits

-- Which of two decimals is taken that are equally near: the one whose last digit is even, or the
-- larger one.
inductive Tie where
  | even
  | up
  deriving Repr, DecidableEq

def Tie.takesLower : Tie → Nat → Bool
  | .even, below => below % 2 = 0
  | .up, _ => false

def neighbours (tie : Tie) (d : Scaled) (cut : Nat) : Scaled × Scaled :=
  let unit := Nat.pow 10 cut
  let quotient := d.digits / unit
  let rest := d.digits % unit
  let below : Scaled := ⟨quotient, d.exponent + cut⟩
  let above : Scaled := ⟨quotient + 1, d.exponent + cut⟩
  if 2 * rest < unit ∨ (2 * rest = unit ∧ tie.takesLower quotient) then (below, above)
  else (above, below)

def shortestFrom (tie : Tie) (bits : Nat) (d : Scaled) : Nat → Scaled
  | 0 => d
  | cut + 1 =>
    let (near, far) := neighbours tie d (cut + 1)
    if readsBack bits near then near
    else if readsBack bits far then far
    else shortestFrom tie bits d cut

def digitChars (n : Nat) : List Char := Nat.toDigits 10 n

def shortest (tie : Tie) (bits : Nat) : Scaled :=
  let d := (Binary.ofBits bits).expansion
  shortestFrom tie bits d ((digitChars d.digits).length - 1)

structure Significant where
  digits : List Char
  exponent : Int
  deriving Repr, DecidableEq

def Scaled.significant (d : Scaled) : Significant :=
  let digits := digitChars d.digits
  { digits := (digits.reverse.dropWhile (· = '0')).reverse
    exponent := d.exponent + (digits.length : Int) - 1 }

end InSitu.Decimal
