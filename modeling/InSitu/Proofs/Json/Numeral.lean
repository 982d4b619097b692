import InSitu.Json.Reader
import InSitu.Proofs.Decimal.Characters
namespace InSitu.Json

theorem isNumeralChar_digit (digit : c.isDigit = true) : isNumeralChar c = true := by
  simp [isNumeralChar, digit]

theorem takeWhile_digit (member : c ∈ List.takeWhile Char.isDigit chars) : c.isDigit = true :=
  List.all_eq_true.mp List.all_takeWhile c member

theorem exponent_chars (read : exponent? rest = some exponent) :
    ∀ c ∈ rest, isNumeralChar c = true := by
  have digits_only : ∀ {digits : List Char},
      ¬ (digits = [] ∨ digits.any (! Char.isDigit ·) = true) →
      ∀ c ∈ digits, isNumeralChar c = true := by
    intro digits all c member
    simp only [not_or, Bool.not_eq_true, List.any_eq_false] at all
    exact isNumeralChar_digit (by simpa using all.2 c member)
  cases rest with
  | nil => simp
  | cons mark rest =>
    simp only [exponent?] at read
    split at read
    · rename_i marked
      have first : isNumeralChar mark = true := by rcases marked with rfl | rfl <;> rfl
      refine List.forall_mem_cons.mpr ⟨first, ?_⟩
      split at read <;> dsimp only at read <;> split at read <;> rename_i all
      · cases read
      · exact List.forall_mem_cons.mpr ⟨rfl, digits_only all⟩
      · cases read
      · exact List.forall_mem_cons.mpr ⟨rfl, digits_only all⟩
      · cases read
      · exact digits_only all
    · cases read

theorem fraction_chars (read : fraction? rest = some (fraction, behind)) :
    ∃ front, rest = front ++ behind ∧ ∀ c ∈ front, isNumeralChar c = true := by
  unfold fraction? at read
  split at read
  · rename_i rest
    dsimp only at read
    split at read
    · cases read
    · cases read
      refine ⟨'.' :: rest.takeWhile Char.isDigit, by simp, ?_⟩
      exact List.forall_mem_cons.mpr ⟨rfl, fun c digit => isNumeralChar_digit (takeWhile_digit digit)⟩
  · cases read
    exact ⟨[], rfl, by simp⟩

def Numeral.ofUnsigned? (negative : Bool) (unsigned : List Char) : Option Numeral :=
  let whole := unsigned.takeWhile Char.isDigit
  if whole = [] ∨ (whole.head? = some '0' ∧ whole.length ≠ 1) then none
  else do
    let (fraction, rest) ← fraction? (unsigned.dropWhile Char.isDigit)
    let exponent ← exponent? rest
    return ⟨negative, whole, fraction, exponent⟩

theorem ofChars_negative (unsigned : List Char) :
    Numeral.ofChars? ('-' :: unsigned) = Numeral.ofUnsigned? true unsigned := rfl

theorem ofChars_unsigned (plain : c ≠ '-') :
    Numeral.ofChars? (c :: rest) = Numeral.ofUnsigned? false (c :: rest) := by
  unfold Numeral.ofChars?
  split
  · rename_i signed
    split at signed
    · rename_i same
      cases same
      exact absurd rfl plain
    · cases signed
      rfl

theorem ofUnsigned_chars (read : (Numeral.ofUnsigned? negative unsigned).isSome) :
    ∃ c rest, unsigned = c :: rest ∧ c.isDigit = true ∧ ∀ c ∈ rest, isNumeralChar c = true := by
  unfold Numeral.ofUnsigned? at read
  dsimp only at read
  split at read
  · cases read
  · rename_i whole
    cases fractioned : fraction? (unsigned.dropWhile Char.isDigit) with
    | none => simp [fractioned] at read
    | some found =>
      obtain ⟨fraction, behind⟩ := found
      cases exponented : exponent? behind with
      | none => simp [fractioned, exponented] at read
      | some exponent =>
        obtain ⟨front, split, inside⟩ := fraction_chars fractioned
        have all : ∀ c ∈ unsigned, isNumeralChar c = true := by
          intro c member
          rw [← List.takeWhile_append_dropWhile (p := Char.isDigit) (l := unsigned), split] at member
          rcases List.mem_append.mp member with digit | later
          · exact isNumeralChar_digit (takeWhile_digit digit)
          · rcases List.mem_append.mp later with fraction | exponent
            · exact inside c fraction
            · exact exponent_chars exponented c exponent
        cases unsigned with
        | nil => simp at whole
        | cons c rest =>
          refine ⟨c, rest, rfl, ?_, fun other member => all other (List.mem_cons_of_mem _ member)⟩
          cases digit : c.isDigit with
          | true => rfl
          | false => simp [digit] at whole

-- A number opens with a sign or a digit, and goes on in characters that no other token has.
theorem ofChars_chars (read : (Numeral.ofChars? spelling).isSome) :
    ∃ c rest, spelling = c :: rest ∧ (c = '-' ∨ c.isDigit = true) ∧
      ∀ c ∈ rest, isNumeralChar c = true := by
  cases spelling with
  | nil => cases read
  | cons c rest =>
    by_cases sign : c = '-'
    · subst sign
      rw [ofChars_negative] at read
      obtain ⟨first, behind, rfl, digit, inside⟩ := ofUnsigned_chars read
      exact ⟨'-', _, rfl, .inl rfl, List.forall_mem_cons.mpr ⟨isNumeralChar_digit digit, inside⟩⟩
    · rw [ofChars_unsigned sign] at read
      obtain ⟨first, behind, same, digit, inside⟩ := ofUnsigned_chars read
      cases same
      exact ⟨c, rest, rfl, .inr digit, inside⟩

theorem ofChars_read (read : Numeral.ofUnsigned? false unsigned = some n) :
    Numeral.ofChars? unsigned = some n := by
  obtain ⟨c, rest, rfl, digit, -⟩ := ofUnsigned_chars (by rw [read]; rfl)
  have plain : c ≠ '-' := by
    intro sign
    rw [sign] at digit
    cases digit
  rw [ofChars_unsigned plain, read]

theorem digits_span {front behind : List Char} (digits : ∀ c ∈ front, c.isDigit = true)
    (apart : ∀ c ∈ behind.head?, c.isDigit = false) :
    (front ++ behind).takeWhile Char.isDigit = front ∧
      (front ++ behind).dropWhile Char.isDigit = behind := by
  rw [List.takeWhile_append_of_pos digits, List.dropWhile_append_of_pos digits]
  cases behind with
  | nil => simp
  | cons c rest =>
    have ended : c.isDigit = false := apart c rfl
    simp [ended]

theorem digitsValue_digits (n : Nat) : digitsValue (Decimal.digitChars n) = n :=
  Nat.ofDigitChars_ten_toDigits

theorem digitChars_lead (positive : 0 < n) : ∃ c rest, Decimal.digitChars n = c :: rest ∧ c ≠ '0' := by
  induction n using Nat.strongRecOn with
  | ind n ih =>
    have unfolded := Nat.toDigits_eq_if (b := 10) (n := n) (by decide)
    by_cases small : n < 10
    · refine ⟨Nat.digitChar n, [], ?_, ?_⟩
      · rw [Decimal.digitChars, unfolded, if_pos small]
      · have each : ∀ n < 10, 0 < n → Nat.digitChar n ≠ '0' := by decide
        exact each n small positive
    · obtain ⟨c, rest, same, lead⟩ := ih (n / 10) (by omega) (by omega)
      refine ⟨c, rest ++ [Nat.digitChar (n % 10)], ?_, lead⟩
      rw [Decimal.digitChars, unfolded, if_neg small]
      rw [Decimal.digitChars] at same
      rw [same]
      rfl

theorem whole_leads (n : Nat) : ¬ (Decimal.digitChars n = [] ∨
    ((Decimal.digitChars n).head? = some '0' ∧ (Decimal.digitChars n).length ≠ 1)) := by
  rcases Nat.eq_zero_or_pos n with rfl | positive
  · decide
  · obtain ⟨c, rest, same, lead⟩ := digitChars_lead positive
    simp [same, lead]

-- A spelling in its parts: digits, what is read behind a point, and what is read as an exponent.
theorem ofUnsigned_spelled {whole behind ending : List Char}
    (digits : ∀ c ∈ whole, c.isDigit = true)
    (leads : ¬ (whole = [] ∨ (whole.head? = some '0' ∧ whole.length ≠ 1)))
    (apart : ∀ c ∈ behind.head?, c.isDigit = false)
    (fractioned : fraction? behind = some (fraction, ending))
    (exponented : exponent? ending = some exponent) (negative : Bool) :
    Numeral.ofUnsigned? negative (whole ++ behind) = some ⟨negative, whole, fraction, exponent⟩ := by
  obtain ⟨front, rest⟩ := digits_span digits apart
  simp only [Numeral.ofUnsigned?, front, rest, if_neg leads, fractioned, Option.bind_eq_bind,
    Option.bind_some, exponented]
  rfl

theorem fraction_spelled {digits ending : List Char} (each : ∀ c ∈ digits, c.isDigit = true)
    (some_digits : digits ≠ []) (apart : ∀ c ∈ ending.head?, c.isDigit = false) :
    fraction? ('.' :: (digits ++ ending)) = some (some digits, ending) := by
  obtain ⟨front, rest⟩ := digits_span each apart
  simp only [fraction?, front, rest, if_neg some_digits]

theorem exponent_spelled (e : Int) : exponent? ('e' :: (if e < 0 then '-' else '+') ::
    Decimal.digitChars e.natAbs) = some (some e) := by
  have some_digits : Decimal.digitChars e.natAbs ≠ [] := Nat.toDigits_ne_nil
  have digits : (Decimal.digitChars e.natAbs).any (! Char.isDigit ·) = false := by
    rw [List.any_eq_false]
    intro c member
    simp [Decimal.digitChars_digit member]
  by_cases below : e < 0
  · simp only [exponent?, true_or, if_true, if_pos below, some_digits, digits, digitsValue_digits,
      false_or, Bool.false_eq_true, if_false]
    congr 2
    omega
  · simp only [exponent?, true_or, if_true, if_neg below, some_digits, digits, digitsValue_digits,
      false_or, Bool.false_eq_true, if_false]
    congr 2
    omega

theorem ofChars_nat (n : Nat) :
    Numeral.ofChars? (Decimal.digitChars n) = some ⟨false, Decimal.digitChars n, none, none⟩ := by
  have each : ∀ c ∈ Decimal.digitChars n, c.isDigit = true := fun c => Decimal.digitChars_digit
  have unsigned : Numeral.ofUnsigned? false (Decimal.digitChars n ++ []) =
      some ⟨false, Decimal.digitChars n, none, none⟩ :=
    ofUnsigned_spelled each (whole_leads n) (by simp) rfl rfl false
  rw [List.append_nil] at unsigned
  exact ofChars_read unsigned

end InSitu.Json
