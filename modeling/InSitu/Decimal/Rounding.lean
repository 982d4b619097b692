namespace InSitu.Decimal

structure Scaled where
  digits : Nat
  exponent : Int
  deriving Repr, DecidableEq

structure Binary where
  mantissa : Nat
  exponent : Int
  deriving Repr, DecidableEq

def infinityBits : Nat := 0x7ff * Nat.pow 2 52

def Binary.ofBits (bits : Nat) : Binary :=
  let field : Nat := bits / Nat.pow 2 52
  let fraction : Nat := bits % Nat.pow 2 52
  if field = 0 then ⟨fraction, -1074⟩ else ⟨Nat.pow 2 52 + fraction, (field : Int) - 1075⟩

def roundedQuotient (num den : Nat) : Nat :=
  let quotient := num / den
  let rest := num % den
  if 2 * rest < den then quotient
  else if den < 2 * rest then quotient + 1
  else quotient + quotient % 2

def unitExponent (num den : Nat) : Int :=
  let estimate : Int := (num.log2 : Int) - (den.log2 : Int)
  let reached := if 0 ≤ estimate then den * Nat.pow 2 estimate.toNat ≤ num
    else den ≤ num * Nat.pow 2 (-estimate).toNat
  let floor := if reached then estimate else estimate - 1
  max (floor - 52) (-1074)

-- Bits of the double nearest to `num / den`. They count the doubles in order, so a quotient that is
-- rounded up to the next power of two needs no case of its own. They may reach `infinityBits`.
def nearestBits (num den : Nat) : Nat :=
  let unit := unitExponent num den
  let places := if 0 ≤ unit then roundedQuotient num (den * Nat.pow 2 unit.toNat)
    else roundedQuotient (num * Nat.pow 2 (-unit).toNat) den
  (unit + 1074).toNat * Nat.pow 2 52 + places

-- Bounds beyond which the answer is known without forming the power of ten.
def tooLarge (d : Scaled) : Bool := 310 ≤ d.exponent

def tooSmall (d : Scaled) : Bool := d.exponent < -400 - (d.digits.log2 : Int)

def nearest? (d : Scaled) : Option Nat :=
  if d.digits = 0 then some 0
  else if tooLarge d then none
  else if tooSmall d then some 0
  else
    let bits := if 0 ≤ d.exponent then nearestBits (d.digits * Nat.pow 10 d.exponent.toNat) 1
      else nearestBits d.digits (Nat.pow 10 (-d.exponent).toNat)
    if bits < infinityBits then some bits else none

end InSitu.Decimal
