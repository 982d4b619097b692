import InSitu.Proofs.Decimal.Shortest
namespace InSitu.Decimal

theorem mantissa_pos (positive : 0 < bits) : 0 < (Binary.ofBits bits).mantissa := by
  by_contra none_left
  have zero : (Binary.ofBits bits).mantissa = 0 := by omega
  have worth := binary_units bits
  have some_units : (0 : ℚ) < units bits := by exact_mod_cast units_pos positive
  rw [Binary.value, zero, Nat.cast_zero, zero_mul, zero_mul] at worth
  exact absurd worth some_units.ne

theorem start_rounds {digits : Nat} (some_digits : 0 < digits) :
    Rounds (digits * unitsInOne) (nearestShifted digits 1 0) := by
  have rounds := nearestShifted_rounds some_digits Nat.one_pos 0
  rwa [Nat.cast_one, div_one, zpow_zero, mul_one] at rounds

theorem powerBits_rounds (power : Nat) : Rounds (10 ^ power * unitsInOne) (powerBits power) := by
  have rounds := nearestBits_rounds (Nat.pow_pos (n := power) (Nat.succ_pos 9)) Nat.one_pos
  rw [Nat.cast_one, div_one, Nat.cast_pow] at rounds
  exact rounds

theorem productBits_rounds (some_left : 0 < left) (some_right : 0 < right) :
    Rounds ((Binary.ofBits left).value * (Binary.ofBits right).value * unitsInOne)
      (productBits left right) := by
  have rounds := nearestShifted_rounds
    (Nat.mul_pos (mantissa_pos some_left) (mantissa_pos some_right)) Nat.one_pos
    ((Binary.ofBits left).exponent + (Binary.ofBits right).exponent)
  rw [Nat.cast_one, div_one, Nat.cast_mul, zpow_add₀ (by norm_num), mul_mul_mul_comm] at rounds
  exact rounds

theorem quotientBits_rounds (some_left : 0 < left) (some_right : 0 < right) :
    Rounds ((Binary.ofBits left).value / (Binary.ofBits right).value * unitsInOne)
      (quotientBits left right) := by
  have rounds := nearestShifted_rounds (mantissa_pos some_left) (mantissa_pos some_right)
    ((Binary.ofBits left).exponent - (Binary.ofBits right).exponent)
  rw [zpow_sub₀ (by norm_num), div_mul_div_comm] at rounds
  exact rounds

theorem whole_units {n : Nat} (positive : 0 < n) (small : n < 2 ^ 53) (power : Nat) :
    ∃ bits, units bits = n * 2 ^ power * unitsInOne ∧ bits < (1076 + power) * 2 ^ 52 := by
  have size : n.log2 < 53 := (Nat.log2_lt positive.ne').mpr small
  have low := Nat.log2_self_le positive.ne'
  have high := Nat.lt_log2_self (n := n)
  have place_low : 2 ^ 52 ≤ n * 2 ^ (52 - n.log2) := by
    calc 2 ^ 52 = 2 ^ n.log2 * 2 ^ (52 - n.log2) := by
          rw [← Nat.pow_add]
          congr 1
          omega
      _ ≤ n * 2 ^ (52 - n.log2) := Nat.mul_le_mul_right _ low
  have place_high : n * 2 ^ (52 - n.log2) < 2 ^ 53 := by
    calc n * 2 ^ (52 - n.log2) < 2 ^ (n.log2 + 1) * 2 ^ (52 - n.log2) :=
          Nat.mul_lt_mul_of_pos_right high (Nat.two_pow_pos _)
      _ = 2 ^ 53 := by
        rw [← Nat.pow_add]
        congr 1
        omega
  refine ⟨(1022 + n.log2 + power) * 2 ^ 52 + n * 2 ^ (52 - n.log2), ?_, by omega⟩
  rw [units_place (.inr place_low) place_high.le]
  unfold unitsInOne
  rw [Nat.mul_assoc, Nat.mul_assoc, ← Nat.pow_add, ← Nat.pow_add]
  congr 2
  omega

theorem Rounds.units_eq {q : ℚ} (rounds : Rounds q bits) (there : units known = q) :
    (units bits : ℚ) = q := by
  subst there
  rw [rounds.kept]

theorem powerBits_exact (small : power ≤ 22) :
    (Binary.ofBits (powerBits power)).value = 10 ^ power := by
  have five : 5 ^ power < 2 ^ 53 :=
    (Nat.pow_le_pow_right (by omega) small).trans_lt (by norm_num)
  obtain ⟨known, worth, -⟩ := whole_units (Nat.pow_pos (n := power) (by omega)) five power
  have there : (units known : ℚ) = 10 ^ power * unitsInOne := by
    rw [worth, ← Nat.mul_pow]
    push_cast
    norm_num
  have same := (powerBits_rounds power).units_eq there
  rw [← binary_units] at same
  exact mul_right_cancel₀ unitsInOne_pos.ne' same

theorem start_exact {digits : Nat} (positive : 0 < digits) (small : digits < 2 ^ 53) :
    (Binary.ofBits (nearestShifted digits 1 0)).value = digits ∧
    nearestShifted digits 1 0 < infinityBits := by
  obtain ⟨known, worth, finite⟩ := whole_units positive small 0
  have there : (units known : ℚ) = digits * unitsInOne := by
    rw [worth, Nat.pow_zero, Nat.mul_one]
    push_cast
    rfl
  have rounds := start_rounds positive
  constructor
  · have same := rounds.units_eq there
    rw [← binary_units] at same
    exact mul_right_cancel₀ unitsInOne_pos.ne' same
  · rw [← there] at rounds
    rw [rounds.kept]
    exact finite.trans (by decide)

theorem Rounds.pos {q : ℚ} (rounds : Rounds q bits) (some_units : 1 ≤ q) : 0 < bits := by
  have first : (units 1 : ℚ) = 1 := by norm_num [units]
  exact (Rounds.exact 1).mono rounds (first.le.trans some_units)

theorem one_le_scaled {q : ℚ} (whole : 1 ≤ q) : 1 ≤ q * unitsInOne := by
  have units : (1 : ℚ) ≤ unitsInOne := by
    have : 1 ≤ unitsInOne := unitsInOne_whole
    exact_mod_cast this
  nlinarith

theorem start_pos {digits : Nat} (positive : 0 < digits) : 0 < nearestShifted digits 1 0 := by
  have whole : (1 : ℚ) ≤ digits := by exact_mod_cast positive
  exact (start_rounds positive).pos (one_le_scaled whole)

theorem powerBits_pos (power : Nat) : 0 < powerBits power :=
  (powerBits_rounds power).pos (one_le_scaled (one_le_pow₀ (by norm_num)))

-- Fifty-three bits of digits and a power of ten that is a double: nothing is lost on the way.
theorem stepwise_nearest {d : Scaled} (small : d.digits < 2 ^ 53) (least : -22 ≤ d.exponent)
    (most : d.exponent ≤ 22) : stepwise? d = nearest? d := by
  rcases Nat.eq_zero_or_pos d.digits with zero | positive
  · simp [stepwise?, nearest?, zero]
  obtain ⟨start, finite⟩ := start_exact positive small
  apply Option.ext
  intro bits
  rw [nearest_exact positive]
  unfold stepwise?
  dsimp only
  rw [if_neg positive.ne', if_neg (by omega)]
  by_cases forward : 0 ≤ d.exponent
  · rw [if_pos forward]
    have power : (10 : ℚ) ^ d.exponent.toNat = 10 ^ d.exponent := by
      rw [← zpow_natCast, Int.toNat_of_nonneg forward]
    have rounds := productBits_rounds (start_pos positive) (powerBits_pos d.exponent.toNat)
    rw [start, powerBits_exact (by omega), power] at rounds
    exact accepted_exact rounds
  · rw [if_neg forward, if_pos (by omega)]
    have power : (10 : ℚ) ^ (-d.exponent).toNat = (10 ^ d.exponent)⁻¹ := by
      rw [← zpow_natCast, Int.toNat_of_nonneg (by omega), zpow_neg]
    have rounds := quotientBits_rounds (start_pos positive) (powerBits_pos (-d.exponent).toNat)
    rw [start, powerBits_exact (by omega), power, div_inv_eq_mul] at rounds
    have below : quotientBits (nearestShifted d.digits 1 0) (powerBits (-d.exponent).toNat) <
        infinityBits := by
      refine (rounds.mono (start_rounds positive) ?_).trans_lt finite
      have part : (10 : ℚ) ^ d.exponent ≤ 1 := zpow_le_one_of_nonpos₀ (by norm_num) (by omega)
      have digits : (0 : ℚ) ≤ d.digits := by positivity
      exact mul_le_mul_of_nonneg_right (mul_le_of_le_one_right digits part) unitsInOne_pos.le
    constructor
    · intro answered
      cases answered
      exact ⟨rounds, below⟩
    · intro other
      rw [rounds.unique other.1]

theorem Binary.value_mono {left right : Nat} (ordered : left ≤ right) :
    (Binary.ofBits left).value ≤ (Binary.ofBits right).value := by
  have counted : (units left : ℚ) ≤ units right := by exact_mod_cast units_strict.monotone ordered
  rw [← binary_units, ← binary_units] at counted
  exact le_of_mul_le_mul_right counted unitsInOne_pos

theorem Binary.value_nonneg (b : Binary) : 0 ≤ b.value := by
  unfold value
  positivity

theorem powerBits_mono {power further : Nat} (ordered : power ≤ further) :
    powerBits power ≤ powerBits further := by
  refine (powerBits_rounds power).mono (powerBits_rounds further) ?_
  have powers : (10 : ℚ) ^ power ≤ 10 ^ further := pow_le_pow_right₀ (by norm_num) ordered
  exact mul_le_mul_of_nonneg_right powers unitsInOne_pos.le

theorem product_mono {digits more power further : Nat} (positive : 0 < digits)
    (ordered : digits ≤ more) (powers : power ≤ further) :
    productBits (nearestShifted digits 1 0) (powerBits power) ≤
      productBits (nearestShifted more 1 0) (powerBits further) := by
  have later := positive.trans_le ordered
  have more_digits : (digits : ℚ) ≤ more := by exact_mod_cast ordered
  have starts := (start_rounds positive).mono (start_rounds later)
    (mul_le_mul_of_nonneg_right more_digits unitsInOne_pos.le)
  refine (productBits_rounds (start_pos positive) (powerBits_pos power)).mono
    (productBits_rounds (start_pos later) (powerBits_pos further)) ?_
  apply mul_le_mul_of_nonneg_right _ unitsInOne_pos.le
  exact mul_le_mul (Binary.value_mono starts) (Binary.value_mono (powerBits_mono powers))
    (Binary.value_nonneg _) (Binary.value_nonneg _)

-- The greatest products that can come up, where the power of ten leaves room for all digits, and
-- where it leaves room for some.
theorem product_roomy :
    productBits (nearestShifted (10 ^ 17) 1 0) (powerBits 291) < infinityBits := by
  decide +kernel

theorem product_least :
    productBits (nearestShifted 17976931348623157 1 0) (powerBits 292) < infinityBits := by
  decide +kernel

theorem product_narrow : ∀ power < 309, 292 < power →
    productBits (nearestShifted (infinite / 10 ^ power) 1 0) (powerBits power) < infinityBits := by
  decide +kernel

def lost : Scaled := ⟨17976931348623158, 292⟩

theorem Scaled.exponent_room {d : Scaled} (positive : 0 < d.digits) (value : d.value < infinite) :
    d.exponent ≤ 308 := by
  by_contra beyond
  have digits : (1 : ℚ) ≤ d.digits := by exact_mod_cast positive
  have power : (infinite : ℚ) ≤ 10 ^ (309 : Int) := by
    have : infinite ≤ 10 ^ 309 := by decide +kernel
    exact_mod_cast this
  have further : (10 : ℚ) ^ (309 : Int) ≤ 10 ^ d.exponent :=
    zpow_le_zpow_right₀ (by norm_num) (by omega)
  have some_power : (0 : ℚ) < 10 ^ d.exponent := by positivity
  have whole := le_mul_of_one_le_left some_power.le digits
  exact absurd value (not_lt.mpr ((power.trans further).trans whole))

-- The product stays finite where the decimal is nearest to a finite double, but for the one.
theorem product_finite {digits power : Nat} (positive : 0 < digits) (few : digits ≤ 10 ^ 17)
    (near : nearest? ⟨digits, power⟩ = some bits) (kept : (⟨digits, power⟩ : Scaled) ≠ lost) :
    productBits (nearestShifted digits 1 0) (powerBits power) < infinityBits := by
  obtain ⟨rounds, finite⟩ := (nearest_exact positive).mp near
  have value := rounds.below finite
  have room : (power : Int) ≤ 308 := Scaled.exponent_room positive value
  have limit : digits ≤ infinite / 10 ^ power := by
    rw [Nat.le_div_iff_mul_le (Nat.pow_pos (by omega))]
    rw [Scaled.value, zpow_natCast] at value
    have : digits * 10 ^ power < infinite := by exact_mod_cast value
    exact this.le
  rcases Nat.lt_trichotomy power 292 with roomy | rfl | narrow
  · exact (product_mono positive few (Nat.le_of_lt_succ roomy)).trans_lt product_roomy
  · refine (product_mono positive ?_ le_rfl).trans_lt product_least
    have most : infinite / 10 ^ 292 = 17976931348623159 := by decide +kernel
    rw [most] at limit
    by_contra beyond
    obtain rfl | rfl : digits = 17976931348623158 ∨ digits = 17976931348623159 := by omega
    · exact kept rfl
    · have nothing : nearest? ⟨17976931348623159, 292⟩ = none := by decide +kernel
      rw [Nat.cast_ofNat, nothing] at near
      cases near
  · exact (product_mono positive limit le_rfl).trans_lt (product_narrow power (by omega) narrow)

theorem stepwise_accepts {d : Scaled} (positive : 0 < d.digits) (few : d.digits ≤ 10 ^ 17)
    (near : nearest? d = some bits) (kept : d ≠ lost) : (stepwise? d).isSome := by
  obtain ⟨rounds, finite⟩ := (nearest_exact positive).mp near
  have room := Scaled.exponent_room positive (rounds.below finite)
  obtain ⟨digits, exponent⟩ := d
  unfold stepwise?
  dsimp only at positive few room ⊢
  rw [if_neg positive.ne', if_neg (by omega)]
  by_cases forward : 0 ≤ exponent
  · obtain ⟨power, rfl⟩ := Int.eq_ofNat_of_zero_le forward
    rw [if_pos forward, Int.toNat_natCast, if_pos (product_finite positive few near kept)]
    rfl
  · rw [if_neg forward]
    split
    · rfl
    split
    · rfl
    · rfl

end InSitu.Decimal
