import InSitu.Decimal.Rounding
namespace InSitu.Decimal

def nearestShifted (num den : Nat) (exponent : Int) : Nat :=
  if num = 0 then 0
  else if 0 ≤ exponent then nearestBits (num * Nat.pow 2 exponent.toNat) den
  else nearestBits num (den * Nat.pow 2 (-exponent).toNat)

def productBits (left right : Nat) : Nat :=
  let a := Binary.ofBits left
  let b := Binary.ofBits right
  nearestShifted (a.mantissa * b.mantissa) 1 (a.exponent + b.exponent)

def quotientBits (left right : Nat) : Nat :=
  let a := Binary.ofBits left
  let b := Binary.ofBits right
  nearestShifted a.mantissa b.mantissa (a.exponent - b.exponent)

def powerBits (power : Nat) : Nat := nearestBits (Nat.pow 10 power) 1

-- No answer for a product that is not finite. A quotient takes a second step where the power is
-- beyond the last one; where it is beyond two of them, nothing is left of digits below `2 ^ 64`.
def stepwise? (d : Scaled) : Option Nat :=
  let start := nearestShifted d.digits 1 0
  if d.digits = 0 then some 0
  else if 308 < d.exponent then none
  else if 0 ≤ d.exponent then
    let bits := productBits start (powerBits d.exponent.toNat)
    if bits < infinityBits then some bits else none
  else if -308 ≤ d.exponent then some (quotientBits start (powerBits (-d.exponent).toNat))
  else if -616 ≤ d.exponent then
    let first := quotientBits start (powerBits 308)
    some (quotientBits first (powerBits (-d.exponent - 308).toNat))
  else some 0

end InSitu.Decimal
