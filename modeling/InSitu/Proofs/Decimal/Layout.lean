import InSitu.Decimal.Layout
import InSitu.Proofs.Decimal.Characters
import InSitu.Proofs.Decimal.Shortest
namespace InSitu.Decimal

theorem digitChars_behind {front last : Nat} (positive : 0 < front) (single : last < 10) :
    digitChars (10 * front + last) = digitChars front ++ [Nat.digitChar last] := by
  rw [digitChars, ← Nat.toDigits_append_toDigits (by decide) positive single,
    Nat.toDigits_of_lt_base single]
  rfl

theorem digitChar_zero {last : Nat} (single : last < 10) :
    (Nat.digitChar last = '0') ↔ last = 0 := by
  have each : ∀ last < 10, (Nat.digitChar last = '0') ↔ last = 0 := by decide
  exact each last single

theorem stripped_digits (positive : 0 < n) : ∃ m zeros, n = m * 10 ^ zeros ∧ 0 < m ∧
    (digitChars n).length = (digitChars m).length + zeros ∧
    ((digitChars n).reverse.dropWhile (· = '0')).reverse = digitChars m := by
  induction n using Nat.strongRecOn with
  | ind n ih =>
    by_cases closing : n % 10 = 0
    · obtain ⟨front, rfl⟩ : ∃ front, n = 10 * front := ⟨n / 10, by omega⟩
      obtain ⟨m, zeros, worth, some_digits, len, stripped⟩ := ih front (by omega) (by omega)
      have digits : digitChars (10 * front + 0) = digitChars front ++ ['0'] :=
        digitChars_behind (by omega) (by omega)
      rw [Nat.add_zero] at digits
      refine ⟨m, zeros + 1, ?_, some_digits, ?_, ?_⟩
      · rw [worth, Nat.pow_succ]
        ring
      · rw [digits, List.length_append, len]
        rfl
      · rw [digits, List.reverse_append, ← stripped]
        rfl
    · have ended : ∃ front last, digitChars n = front ++ [last] ∧ last ≠ '0' := by
        by_cases single : n < 10
        · refine ⟨[], Nat.digitChar n, Nat.toDigits_of_lt_base single, ?_⟩
          rw [ne_eq, digitChar_zero single]
          omega
        · refine ⟨digitChars (n / 10), Nat.digitChar (n % 10), ?_, ?_⟩
          · rw [← digitChars_behind (by omega) (Nat.mod_lt _ (by omega)), Nat.div_add_mod]
          · rw [ne_eq, digitChar_zero (Nat.mod_lt _ (by omega))]
            exact closing
      obtain ⟨front, last, digits, some_last⟩ := ended
      refine ⟨n, 0, by omega, positive, rfl, ?_⟩
      rw [digits, List.reverse_append]
      simp [some_last]

-- The significant digits of a decimal, and the decimal that they make up.
theorem significant_exact {d : Scaled} (positive : 0 < d.digits) : ∃ m exponent,
    0 < m ∧ m ≤ d.digits ∧ (⟨m, exponent⟩ : Scaled).value = d.value ∧
    d.significant = ⟨digitChars m, exponent + (digitChars m).length - 1⟩ := by
  obtain ⟨m, zeros, worth, some_digits, len, stripped⟩ := stripped_digits positive
  refine ⟨m, d.exponent + zeros, some_digits, ?_, ?_, ?_⟩
  · rw [worth]
    exact Nat.le_mul_of_pos_right m (Nat.pow_pos (by omega))
  · have whole : (d.digits : ℚ) = m * 10 ^ zeros := by exact_mod_cast worth
    rw [Scaled.value, Scaled.value, zpow_add₀ (by norm_num), zpow_natCast, whole]
    ring
  · unfold Scaled.significant
    dsimp only
    rw [stripped, len]
    congr 1
    push_cast
    ring

end InSitu.Decimal
