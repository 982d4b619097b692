import InSitu.Decimal.Stepwise
import InSitu.Proofs.Decimal.Magnitude
namespace InSitu.Decimal

def Scaled.value (d : Scaled) : ℚ := d.digits * 10 ^ d.exponent

def Binary.value (b : Binary) : ℚ := b.mantissa * 2 ^ b.exponent

theorem binary_units (bits : Nat) : (Binary.ofBits bits).value * unitsInOne = units bits := by
  have two : (2 : ℚ) ≠ 0 := by norm_num
  have place : Nat.pow 2 52 = 2 ^ 52 := rfl
  unfold Binary.ofBits units Binary.value
  rw [place, unitsInOne_power]
  dsimp only
  split
  · rw [mul_assoc, ← zpow_add₀ two]
    simp
  · rename_i normal
    rw [mul_assoc, ← zpow_add₀ two]
    have exponent : ((bits / 2 ^ 52 : Nat) : Int) - 1075 + 1074 =
        ((bits / 2 ^ 52 - 1 : Nat) : Int) := by omega
    rw [exponent, zpow_natCast]
    push_cast
    rfl

theorem nearestShifted_rounds {num den : Nat} (some_num : 0 < num) (some_den : 0 < den)
    (exponent : Int) : Rounds (num / den * 2 ^ exponent * unitsInOne) (nearestShifted num den exponent) := by
  unfold nearestShifted
  rw [if_neg some_num.ne']
  split
  · rename_i forward
    have power : ((Nat.pow 2 exponent.toNat : Nat) : ℚ) = 2 ^ exponent := pow_forward 2 forward
    have rounds := nearestBits_rounds (Nat.mul_pos some_num (Nat.two_pow_pos exponent.toNat)) some_den
    rwa [Nat.cast_mul, ← Nat.pow_eq, power, mul_div_right_comm] at rounds
  · rename_i backward
    have power : ((Nat.pow 2 (-exponent).toNat : Nat) : ℚ) = (2 ^ exponent)⁻¹ :=
      pow_backward 2 backward
    have rounds := nearestBits_rounds some_num
      (Nat.mul_pos some_den (Nat.two_pow_pos (-exponent).toNat))
    rwa [Nat.cast_mul, ← Nat.pow_eq, power, ← div_div, div_inv_eq_mul] at rounds

@[irreducible] def infinite : Nat := 2 ^ 1024

theorem units_infinity : units infinityBits = infinite * unitsInOne := by
  have place : infinityBits = 2046 * 2 ^ 52 + 2 ^ 52 := rfl
  have split : ∀ a b c d : Nat, a + b = c + d → 2 ^ a * 2 ^ b = 2 ^ c * 2 ^ d := by
    intro a b c d same
    rw [← Nat.pow_add, ← Nat.pow_add, same]
  rw [place, units_place (.inr le_rfl) (by norm_num)]
  unfold infinite unitsInOne
  exact split 52 2046 1024 1074 rfl

theorem Rounds.below {q : ℚ} (rounds : Rounds (q * unitsInOne) bits) (finite : bits < infinityBits) :
    q < infinite := by
  by_contra beyond
  have reached : ((units infinityBits : Nat) : ℚ) ≤ q * unitsInOne := by
    rw [units_infinity, Nat.cast_mul]
    exact mul_le_mul_of_nonneg_right (not_lt.mp beyond) unitsInOne_pos.le
  have order := (Rounds.exact infinityBits).mono rounds reached
  exact absurd finite (Nat.not_lt.mpr order)

namespace Scaled
variable {d : Scaled}

theorem value_pos (some_digits : 0 < d.digits) : 0 < d.value := by
  have digits : (0 : ℚ) < d.digits := by exact_mod_cast some_digits
  unfold value
  positivity

theorem tooLarge_beyond (some_digits : 0 < d.digits) (large : tooLarge d = true) :
    (infinite : ℚ) ≤ d.value := by
  have power : (infinite : ℚ) ≤ (10 : ℚ) ^ 310 := by
    have : infinite ≤ 10 ^ 310 := by decide +kernel
    exact_mod_cast this
  have ten : (10 : ℚ) ^ (310 : Int) ≤ 10 ^ d.exponent := by
    apply zpow_le_zpow_right₀ (by norm_num)
    simpa [tooLarge] using large
  have digits : (1 : ℚ) ≤ d.digits := by exact_mod_cast some_digits
  have positive : (0 : ℚ) < 10 ^ d.exponent := by positivity
  exact (power.trans ten).trans (le_mul_of_one_le_left positive.le digits)

theorem tooSmall_least (small : tooSmall d = true) : d.value * unitsInOne < 1 / 2 := by
  have exponent : d.exponent ≤ -400 - ((d.digits.log2 + 1 : Nat) : Int) := by
    simp only [tooSmall, decide_eq_true_eq] at small
    push_cast
    omega
  have digits : (d.digits : ℚ) < 2 ^ (d.digits.log2 + 1) := by exact_mod_cast Nat.lt_log2_self
  have powers : (2 : ℚ) ^ (d.digits.log2 + 1) ≤ 10 ^ (d.digits.log2 + 1) := by
    gcongr
    norm_num
  have ten : (10 : ℚ) ^ d.exponent ≤ 10 ^ (-400 : Int) * (10 ^ (d.digits.log2 + 1))⁻¹ := by
    rw [← zpow_natCast, ← zpow_neg, ← zpow_add₀ (by norm_num)]
    apply zpow_le_zpow_right₀ (by norm_num)
    omega
  have positive : (0 : ℚ) < 10 ^ (d.digits.log2 + 1) := by positivity
  have negative : (0 : ℚ) < 10 ^ (-400 : Int) := by positivity
  have hundreds : (10 : ℚ) ^ (-400 : Int) * 10 ^ 400 = 1 := by
    rw [zpow_neg]
    exact inv_mul_cancel₀ (by positivity)
  have least : (2 * unitsInOne : ℚ) < (10 : ℚ) ^ 400 := by
    have : 2 * unitsInOne < 10 ^ 400 := by decide +kernel
    exact_mod_cast this
  have one := unitsInOne_pos
  have value : d.value ≤ 10 ^ (-400 : Int) := by
    calc d.value
        ≤ 10 ^ (d.digits.log2 + 1) * (10 ^ (-400 : Int) * (10 ^ (d.digits.log2 + 1))⁻¹) := by
          unfold value
          gcongr
          exact digits.le.trans powers
      _ = 10 ^ (-400 : Int) := by field_simp
  generalize (10 : ℚ) ^ (-400 : Int) = least_power at negative hundreds value
  generalize (10 : ℚ) ^ 400 = great at hundreds least
  nlinarith

end Scaled

theorem accepted_exact {q : ℚ} (rounds : Rounds q found) :
    (if found < infinityBits then some found else none) = some bits ↔
      Rounds q bits ∧ bits < infinityBits := by
  constructor
  · intro answered
    split at answered
    · cases answered
      exact ⟨rounds, by assumption⟩
    · cases answered
  · intro ⟨other, finite⟩
    obtain rfl := rounds.unique other
    exact if_pos finite

theorem nearest_exact {d : Scaled} (some_digits : 0 < d.digits) :
    nearest? d = some bits ↔ Rounds (d.value * unitsInOne) bits ∧ bits < infinityBits := by
  unfold nearest?
  rw [if_neg some_digits.ne']
  by_cases large : tooLarge d = true
  · rw [if_pos large]
    have beyond := Scaled.tooLarge_beyond some_digits large
    constructor
    · intro nothing
      cases nothing
    · intro ⟨rounds, finite⟩
      exact absurd (rounds.below finite) (not_lt.mpr beyond)
  rw [if_neg large]
  by_cases small : tooSmall d = true
  · rw [if_pos small]
    have least := Scaled.tooSmall_least small
    have zero : Rounds (d.value * unitsInOne) 0 := by
      refine .inside (fun below next => by omega) (least.trans_eq ?_)
      norm_num [middle, units]
    constructor
    · intro same
      cases same
      exact ⟨zero, by decide⟩
    · intro ⟨rounds, finite⟩
      rw [zero.unique rounds]
  rw [if_neg small]
  have rounds : Rounds (d.value * unitsInOne)
      (if 0 ≤ d.exponent then nearestBits (d.digits * Nat.pow 10 d.exponent.toNat) 1
        else nearestBits d.digits (Nat.pow 10 (-d.exponent).toNat)) := by
    unfold Scaled.value
    split
    · rename_i forward
      have power : ((Nat.pow 10 d.exponent.toNat : Nat) : ℚ) = 10 ^ d.exponent :=
        pow_forward 10 forward
      have rounds := nearestBits_rounds
        (Nat.mul_pos some_digits (Nat.pow_pos (n := d.exponent.toNat) (Nat.succ_pos 9))) Nat.one_pos
      rwa [Nat.cast_mul, ← Nat.pow_eq, power, Nat.cast_one, div_one] at rounds
    · rename_i backward
      have power : ((Nat.pow 10 (-d.exponent).toNat : Nat) : ℚ) = (10 ^ d.exponent)⁻¹ :=
        pow_backward 10 backward
      have rounds := nearestBits_rounds some_digits
        (Nat.pow_pos (n := (-d.exponent).toNat) (Nat.succ_pos 9))
      rwa [← Nat.pow_eq, power, div_inv_eq_mul] at rounds
  exact accepted_exact rounds

-- Only what a decimal is worth decides what is nearest to it.
theorem nearest_value {d other : Scaled} (some_digits : 0 < d.digits) (same : d.value = other.value) :
    nearest? d = nearest? other := by
  have digits : 0 < other.digits := by
    have positive := Scaled.value_pos some_digits
    by_contra none_left
    obtain zero : other.digits = 0 := by omega
    rw [same, Scaled.value, zero] at positive
    simp at positive
  apply Option.ext
  intro bits
  rw [nearest_exact some_digits, nearest_exact digits, same]

end InSitu.Decimal
