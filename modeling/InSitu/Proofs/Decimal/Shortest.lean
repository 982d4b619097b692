import InSitu.Decimal.Shortest
import InSitu.Proofs.Decimal.Nearest
namespace InSitu.Decimal

theorem expansion_value (b : Binary) : b.expansion.value = b.value := by
  unfold Binary.expansion
  split
  · rename_i forward
    have power : ((Nat.pow 2 b.exponent.toNat : Nat) : ℚ) = 2 ^ b.exponent := pow_forward 2 forward
    rw [Scaled.value, Nat.cast_mul, power, zpow_zero, mul_one]
    rfl
  · rename_i backward
    have power : ((Nat.pow 5 (-b.exponent).toNat : Nat) : ℚ) = (5 ^ b.exponent)⁻¹ :=
      pow_backward 5 backward
    have ten : (10 : ℚ) ^ b.exponent = 2 ^ b.exponent * 5 ^ b.exponent := by
      rw [← mul_zpow]
      norm_num
    have five : (5 : ℚ) ^ b.exponent ≠ 0 := by positivity
    rw [Scaled.value, Nat.cast_mul, power, ten, Binary.value]
    field_simp

theorem units_pos (positive : 0 < bits) : 0 < units bits :=
  (Nat.zero_le (units 0)).trans_lt (units_strict positive)

theorem expansion_units (bits : Nat) :
    (Binary.ofBits bits).expansion.value * unitsInOne = units bits := by
  rw [expansion_value, binary_units]

theorem expansion_digits (positive : 0 < bits) : 0 < (Binary.ofBits bits).expansion.digits := by
  by_contra none_left
  obtain zero : (Binary.ofBits bits).expansion.digits = 0 := by omega
  have worth := expansion_units bits
  have some_units : (0 : ℚ) < units bits := by exact_mod_cast units_pos positive
  rw [Scaled.value, zero, Nat.cast_zero, zero_mul, zero_mul] at worth
  exact absurd worth some_units.ne

theorem expansion_reads (positive : 0 < bits) (finite : bits < infinityBits) :
    readsBack bits (Binary.ofBits bits).expansion = true := by
  rw [readsBack, decide_eq_true_eq, nearest_exact (expansion_digits positive), expansion_units]
  exact ⟨.exact bits, finite⟩

theorem shortestFrom_reads (reads : readsBack bits d = true) (cut : Nat) :
    readsBack bits (shortestFrom tie bits d cut) = true := by
  induction cut with
  | zero => exact reads
  | succ cut ih =>
    unfold shortestFrom
    dsimp only
    split
    · assumption
    split
    · assumption
    · exact ih

theorem neighbours_digits (tie : Tie) (d : Scaled) (cut : Nat) :
    (neighbours tie d cut).1.digits ≤ d.digits / 10 ^ cut + 1 ∧
    (neighbours tie d cut).2.digits ≤ d.digits / 10 ^ cut + 1 ∧
    d.digits / 10 ^ cut ≤ (neighbours tie d cut).1.digits := by
  unfold neighbours
  dsimp only [← Nat.pow_eq]
  split <;> simp

theorem neighbours_exponent (tie : Tie) (d : Scaled) (cut : Nat) :
    (neighbours tie d cut).1.exponent = d.exponent + cut ∧
    (neighbours tie d cut).2.exponent = d.exponent + cut := by
  unfold neighbours
  dsimp only
  split <;> exact ⟨rfl, rfl⟩

theorem neighbours_near (tie : Tie) (d : Scaled) (cut : Nat) :
    |(neighbours tie d cut).1.value - d.value| ≤ 10 ^ cut * 10 ^ d.exponent / 2 := by
  have whole : (d.digits : ℚ) = 10 ^ cut * (d.digits / 10 ^ cut : Nat) + (d.digits % 10 ^ cut : Nat) := by
    exact_mod_cast (Nat.div_add_mod d.digits (10 ^ cut)).symm
  have less : ((d.digits % 10 ^ cut : Nat) : ℚ) < 10 ^ cut := by
    exact_mod_cast Nat.mod_lt _ (Nat.pow_pos (n := cut) (Nat.succ_pos 9))
  have power : (0 : ℚ) < 10 ^ d.exponent := by positivity
  have shifted : (10 : ℚ) ^ (d.exponent + cut) = 10 ^ cut * 10 ^ d.exponent := by
    rw [zpow_add₀ (by norm_num), zpow_natCast, mul_comm]
  have least : (0 : ℚ) ≤ (d.digits % 10 ^ cut : Nat) := by positivity
  have value : d.value = (10 ^ cut * (d.digits / 10 ^ cut : Nat) + (d.digits % 10 ^ cut : Nat)) *
      10 ^ d.exponent := by
    rw [← whole]
    rfl
  rw [value]
  unfold neighbours
  dsimp only [← Nat.pow_eq]
  generalize d.digits / 10 ^ cut = quotient
  generalize d.digits % 10 ^ cut = rest at less least ⊢
  split <;> rename_i side <;> dsimp only [Scaled.value] <;> rw [shifted, abs_le]
  · have half : (2 * rest : ℚ) ≤ 10 ^ cut := by
      have : 2 * rest ≤ 10 ^ cut := side.elim Nat.le_of_lt fun tie => tie.1.le
      exact_mod_cast this
    constructor <;> nlinarith
  · have half : (10 : ℚ) ^ cut ≤ 2 * rest := by
      have : 10 ^ cut ≤ 2 * rest := Nat.not_lt.mp fun less => side (.inl less)
      exact_mod_cast this
    push_cast
    constructor <;> nlinarith

-- A magnitude is farther from both middles than half a place at its seventeenth digit.
theorem middle_far {bits : Nat} (positive : 0 < bits) :
    units bits + units bits / (2 * 10 ^ 16) < middle bits ∧
    ∀ below, below + 1 = bits → middle below < units bits - units bits / (2 * 10 ^ 16) := by
  obtain ⟨step, place, rfl, full, bounded⟩ := bits_place bits
  have power : (0 : ℚ) < 2 ^ step := by positivity
  have size : (place : ℚ) < 2 ^ 53 := by exact_mod_cast bounded
  have here : (units (step * 2 ^ 52 + place) : ℚ) = place * 2 ^ step := by
    rw [units_place full bounded.le]
    push_cast
    rfl
  constructor
  · rw [middle_place full bounded, here]
    nlinarith
  · intro below behind
    rw [here]
    by_cases first : step ≠ 0 ∧ place = 2 ^ 52
    · obtain ⟨some_step, rfl⟩ := first
      obtain ⟨before, rfl⟩ : ∃ before, step = before + 1 := ⟨step - 1, by omega⟩
      obtain rfl : below = before * 2 ^ 52 + (2 ^ 53 - 1) := by omega
      have half : (0 : ℚ) < 2 ^ before := by positivity
      have last : ((2 ^ 53 - 1 : Nat) : ℚ) = 2 ^ 53 - 1 := by norm_num
      have full : ((2 ^ 52 : Nat) : ℚ) = 2 ^ 52 := by norm_num
      rw [middle_place (.inr (by norm_num)) (by norm_num), pow_succ (2 : ℚ) before, last, full]
      linarith only [half]
    · obtain ⟨before, rfl⟩ : ∃ before, place = before + 1 := ⟨place - 1, by omega⟩
      obtain rfl : below = step * 2 ^ 52 + before := by omega
      rw [middle_place (by omega) (by omega)]
      push_cast at size ⊢
      nlinarith

-- Where the nearer neighbour reads back, no less is cut.
theorem shortestFrom_cut (tie : Tie) (bits : Nat) (d : Scaled) {cut last : Nat} (reached : cut ≤ last)
    (near : 0 < cut → readsBack bits (neighbours tie d cut).1 = true) :
    (shortestFrom tie bits d last).digits ≤ d.digits / 10 ^ cut + 1 ∧
    d.exponent + cut ≤ (shortestFrom tie bits d last).exponent := by
  induction last with
  | zero =>
    obtain rfl : cut = 0 := by omega
    simp [shortestFrom]
  | succ last ih =>
    obtain ⟨first, second, -⟩ := neighbours_digits tie d (last + 1)
    obtain ⟨place, other⟩ := neighbours_exponent tie d (last + 1)
    have fewer : d.digits / 10 ^ (last + 1) ≤ d.digits / 10 ^ cut :=
      Nat.div_le_div_left (Nat.pow_le_pow_right (by omega) reached) (Nat.pow_pos (by omega))
    unfold shortestFrom
    dsimp only
    split
    · constructor <;> omega
    · rename_i apart
      split
      · constructor <;> omega
      · refine ih ?_
        by_contra beyond
        obtain rfl : cut = last + 1 := by omega
        exact apart (near (Nat.succ_pos last))

theorem digitChars_length (n : Nat) (positive : 0 < n) :
    10 ^ ((digitChars n).length - 1) ≤ n ∧ n < 10 ^ (digitChars n).length := by
  have some_digits : 0 < (digitChars n).length := List.length_pos_of_ne_nil Nat.toDigits_ne_nil
  have bound : ∀ k, 0 < k → ((digitChars n).length ≤ k ↔ n < 10 ^ k) :=
    fun k some_places => Nat.length_toDigits_le_iff (by omega) some_places
  refine ⟨?_, (bound _ some_digits).mp le_rfl⟩
  by_cases single : (digitChars n).length - 1 = 0
  · rw [single]
    exact positive
  · apply Nat.not_lt.mp
    intro less
    have shorter := (bound _ (Nat.pos_of_ne_zero single)).mpr less
    omega

theorem near_reads (tie : Tie) (positive : 0 < bits) (finite : bits < infinityBits) {cut : Nat}
    (long : 10 ^ 16 ≤ (Binary.ofBits bits).expansion.digits / 10 ^ cut) :
    readsBack bits (neighbours tie (Binary.ofBits bits).expansion cut).1 = true := by
  obtain ⟨-, -, least⟩ := neighbours_digits tie (Binary.ofBits bits).expansion cut
  obtain ⟨above, beneath⟩ := middle_far positive
  have close := neighbours_near tie (Binary.ofBits bits).expansion cut
  have worth := expansion_units bits
  have one := unitsInOne_pos
  have many : (10 : ℚ) ^ 16 * 10 ^ cut ≤ (Binary.ofBits bits).expansion.digits := by
    have : 10 ^ 16 * 10 ^ cut ≤ (Binary.ofBits bits).expansion.digits :=
      (Nat.le_div_iff_mul_le (Nat.pow_pos (by omega))).mp long
    exact_mod_cast this
  have power : (0 : ℚ) < 10 ^ (Binary.ofBits bits).expansion.exponent := by positivity
  have part : (10 : ℚ) ^ cut * 10 ^ (Binary.ofBits bits).expansion.exponent / 2 ≤
      (Binary.ofBits bits).expansion.value / (2 * 10 ^ 16) := by
    unfold Scaled.value
    have wide := mul_le_mul_of_nonneg_right many power.le
    rw [div_le_div_iff₀ (by norm_num) (by positivity)]
    nlinarith
  obtain ⟨low, high⟩ := abs_le.mp (close.trans part)
  rw [readsBack, decide_eq_true_eq, nearest_exact (by omega)]
  refine ⟨.inside (fun below next => (beneath below next).trans_le ?_) (lt_of_le_of_lt ?_ above),
    finite⟩
  · rw [← worth]
    nlinarith
  · rw [← worth]
    nlinarith

-- No double needs more than seventeen digits.
theorem shortest_spec (tie : Tie) (positive : 0 < bits) (finite : bits < infinityBits) :
    0 < (shortest tie bits).digits ∧ (shortest tie bits).digits ≤ 10 ^ 17 ∧
    nearest? (shortest tie bits) = some bits := by
  have reads : nearest? (shortest tie bits) = some bits :=
    of_decide_eq_true (shortestFrom_reads (expansion_reads positive finite) _)
  refine ⟨?_, ?_, reads⟩
  · by_contra none_left
    have zero : (shortest tie bits).digits = 0 := by omega
    rw [nearest?, if_pos zero] at reads
    cases reads
    exact absurd positive (Nat.lt_irrefl 0)
  · unfold shortest
    dsimp only
    obtain ⟨least, less⟩ := digitChars_length _ (expansion_digits positive)
    generalize (digitChars (Binary.ofBits bits).expansion.digits).length = len at least less ⊢
    by_cases short : (Binary.ofBits bits).expansion.digits < 10 ^ 17
    · obtain ⟨all, -⟩ := shortestFrom_cut tie bits (Binary.ofBits bits).expansion
        (Nat.zero_le (len - 1)) (fun nothing => absurd nothing (Nat.lt_irrefl 0))
      rw [Nat.pow_zero, Nat.div_one] at all
      omega
    · have long : 17 < len := by
        by_contra few
        have : 10 ^ len ≤ 10 ^ 17 := Nat.pow_le_pow_right (by omega) (Nat.not_lt.mp few)
        omega
      have lower : 10 ^ 16 ≤ (Binary.ofBits bits).expansion.digits / 10 ^ (len - 17) := by
        rw [Nat.le_div_iff_mul_le (Nat.pow_pos (by omega)), ← Nat.pow_add]
        have : 16 + (len - 17) = len - 1 := by omega
        rwa [this]
      have upper : (Binary.ofBits bits).expansion.digits / 10 ^ (len - 17) < 10 ^ 17 := by
        rw [Nat.div_lt_iff_lt_mul (Nat.pow_pos (by omega)), ← Nat.pow_add]
        have : 17 + (len - 17) = len := by omega
        rwa [this]
      obtain ⟨cut, -⟩ := shortestFrom_cut tie bits (Binary.ofBits bits).expansion
        (by omega : len - 17 ≤ len - 1) (fun _ => near_reads tie positive finite lower)
      omega

end InSitu.Decimal
