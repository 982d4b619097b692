import InSitu.Proofs.Decimal.Layout
namespace InSitu.Decimal
section Expansion
variable {bits n : Nat}

theorem expansion_whole (worth : units bits = n * unitsInOne) : ∃ places : Nat,
    (Binary.ofBits bits).expansion = ⟨n * 10 ^ places, -places⟩ := by
  have value : (Binary.ofBits bits).expansion.value = n := by
    have counted := expansion_units bits
    rw [worth, Nat.cast_mul] at counted
    exact mul_right_cancel₀ unitsInOne_pos.ne' counted
  have behind : (Binary.ofBits bits).expansion.exponent ≤ 0 := by
    unfold Binary.expansion
    split
    · exact le_rfl
    · dsimp only
      omega
  obtain ⟨places, negative⟩ := Int.exists_eq_neg_ofNat behind
  refine ⟨places, ?_⟩
  have power : (0 : ℚ) < 10 ^ places := by positivity
  rw [Scaled.value, negative, zpow_neg, zpow_natCast, mul_inv_eq_iff_eq_mul₀ power.ne'] at value
  have digits : (Binary.ofBits bits).expansion.digits = n * 10 ^ places := by exact_mod_cast value
  rw [← digits, ← negative]

theorem shortest_whole (tie : Tie) (some_bits : 0 < bits) (finite : bits < infinityBits)
    (worth : units bits = n * unitsInOne) : 0 ≤ (shortest tie bits).exponent := by
  obtain ⟨places, expanded⟩ := expansion_whole worth
  have some_digits := expansion_digits some_bits
  have reads := expansion_reads some_bits finite
  unfold shortest
  dsimp only
  rw [expanded] at some_digits reads ⊢
  dsimp only at some_digits ⊢
  have power : 0 < 10 ^ places := Nat.pow_pos (by omega)
  have some_n : 0 < n := Nat.pos_of_mul_pos_right some_digits
  have inside : places ≤ (digitChars (n * 10 ^ places)).length - 1 := by
    obtain ⟨-, less⟩ := digitChars_length _ some_digits
    have fewer : 10 ^ places < 10 ^ (digitChars (n * 10 ^ places)).length :=
      (Nat.le_mul_of_pos_left _ some_n).trans_lt less
    have := (Nat.pow_lt_pow_iff_right (by omega)).mp fewer
    omega
  have near : (neighbours tie ⟨n * 10 ^ places, -places⟩ places).1 = ⟨n, 0⟩ := by
    unfold neighbours
    dsimp only [Nat.pow_eq]
    rw [Nat.mul_div_cancel n power, Nat.mul_mod_left, if_pos (.inl power), Int.add_left_neg]
  obtain ⟨-, cut⟩ := shortestFrom_cut tie bits ⟨n * 10 ^ places, -places⟩ inside (fun _ => by
    rw [readsBack, decide_eq_true_eq] at reads ⊢
    rw [near, ← reads]
    apply nearest_value some_n
    simp [Scaled.value])
  rwa [Int.add_left_neg] at cut

theorem units_double (some_bits : 0 < bits) : units (bits + 1) ≤ 2 * units bits := by
  obtain ⟨step, place, rfl, full, below⟩ := bits_place bits
  rw [units_place full below.le, Nat.add_assoc, units_place (by omega) (by omega), ← Nat.mul_assoc]
  exact Nat.mul_le_mul_right _ (by omega)

theorem middle_double (some_bits : 0 < bits) : middle bits ≤ 2 * units bits := by
  have next : (units (bits + 1) : ℚ) ≤ 2 * units bits := by exact_mod_cast units_double some_bits
  have least : (0 : ℚ) ≤ units bits := by positivity
  unfold middle
  linarith

-- What a whole number is written as: digits with zeros behind them, no more than twice the number.
theorem whole_significant (tie : Tie) (some_bits : 0 < bits) (finite : bits < infinityBits)
    (worth : units bits = n * unitsInOne) : ∃ m zeros : Nat, 0 < m ∧ m * 10 ^ zeros ≤ 2 * n ∧
      (shortest tie bits).significant =
        ⟨digitChars m, (zeros : Int) + (digitChars m).length - 1⟩ := by
  obtain ⟨some_digits, -, near⟩ := shortest_spec tie some_bits finite
  obtain ⟨m, e, some_m, fewer, same, shown⟩ := significant_exact some_digits
  have whole : 0 ≤ e := by
    by_contra below
    have least : (10 : ℚ) ^ e < 10 ^ (shortest tie bits).exponent := by
      apply zpow_lt_zpow_right₀ (by norm_num)
      have := shortest_whole tie some_bits finite worth
      omega
    have digits : (m : ℚ) ≤ (shortest tie bits).digits := by exact_mod_cast fewer
    have positive : (0 : ℚ) < m := by exact_mod_cast some_m
    have power : (0 : ℚ) < 10 ^ e := by positivity
    unfold Scaled.value at same
    dsimp only at same
    nlinarith
  obtain ⟨zeros, rfl⟩ := Int.eq_ofNat_of_zero_le whole
  refine ⟨m, zeros, some_m, ?_, shown⟩
  obtain ⟨rounds, -⟩ := (nearest_exact some_digits).mp near
  have high := rounds.high.trans (middle_double some_bits)
  rw [← same, worth, Nat.cast_mul, ← mul_assoc] at high
  have worth := le_of_mul_le_mul_right high unitsInOne_pos
  rw [Scaled.value, zpow_natCast] at worth
  exact_mod_cast worth

end Expansion
end InSitu.Decimal
