import InSitu.Decimal.Layout
namespace InSitu.Decimal

-- What holds of every character of a fixed text is computed along the text.
theorem each_char {P : Char → Prop} [DecidablePred P] {chars : List Char}
    (all : chars.all (P ·) = true) : ∀ c ∈ chars, P c :=
  fun c member => of_decide_eq_true (List.all_eq_true.mp all c member)

theorem shown_number (n : Nat) : (toString n).toList = digitChars n := Nat.toList_repr

theorem shown_text (s : String) : toString s = s := rfl

theorem digitChars_digit (member : c ∈ digitChars n) : c.isDigit = true :=
  Nat.isDigit_of_mem_toDigits (by decide) (by decide) member

theorem digits_without (apart : c.isDigit = false) : c ∉ digitChars n := by
  intro member
  rw [digitChars_digit member] at apart
  cases apart

theorem digitChars_inj (same : digitChars n = digitChars m) : n = m := by
  have value := congrArg (Nat.ofDigitChars 10 · 0) same
  simpa [digitChars, Nat.ofDigitChars_ten_toDigits] using value

def Numeral (c : Char) : Prop := c.isDigit = true ∨ c ∈ ['-', '.', '+', 'e', 'N', 'a', 'i', 'n', 'f']

instance : DecidablePred Numeral := fun _ => inferInstanceAs (Decidable (_ ∨ _))

theorem zeros_numeral (member : c ∈ zeros n) : Numeral c := by
  rw [List.eq_of_mem_replicate member]
  decide

theorem significant_digits (d : Scaled) (member : c ∈ d.significant.digits) : Numeral c := by
  have trimmed := List.dropWhile_subset _ (List.mem_reverse.mp member)
  exact .inl (digitChars_digit (List.mem_reverse.mp trimmed))

theorem placed_numeral (digits : ∀ c ∈ s.digits, Numeral c) (member : c ∈ placed pointed s) :
    Numeral c := by
  have point : ∀ c ∈ ['0', '.'], Numeral c := each_char (by decide)
  unfold placed at member
  split at member
  · simp only [List.mem_append] at member
    rcases member with (lead | zero) | digit
    · exact point c lead
    · exact zeros_numeral zero
    · exact digits c digit
  · have whole : ∀ c ∈ s.digits.take (s.exponent.toNat + 1) ++
        zeros (s.exponent.toNat + 1 - s.digits.length), Numeral c := by
      intro c member
      rcases List.mem_append.mp member with digit | zero
      · exact digits c (List.mem_of_mem_take digit)
      · exact zeros_numeral zero
    dsimp only at member
    split at member
    · split at member
      · rcases List.mem_append.mp member with inside | ending
        · exact whole c inside
        · exact point c (by simpa [or_comm] using ending)
      · exact whole c member
    · rcases List.mem_append.mp member with front | behind
      · rcases List.mem_append.mp front with inside | ending
        · exact whole c inside
        · exact point c (by simp_all)
      · exact digits c (List.mem_of_mem_drop behind)

theorem scientific_numeral (digits : ∀ c ∈ s.digits, Numeral c) (member : c ∈ scientific s) :
    Numeral c := by
  have marks : ∀ c ∈ ['.', 'e', '+', '-'], Numeral c := each_char (by decide)
  unfold scientific at member
  rcases List.mem_append.mp member with front | exponent
  · rcases List.mem_append.mp front with lead | mark
    · split at lead
      · rename_i first second rest shape
        have all : ∀ c ∈ first :: second :: rest, Numeral c := fun c inside => digits c (shape ▸ inside)
        simp only [List.mem_cons] at lead
        rcases lead with rfl | rfl | rfl | inside
        · exact all _ (by simp)
        · decide
        · exact all _ (by simp)
        · exact all _ (by simp [inside])
      · exact digits c lead
    · apply marks c
      split at mark <;> rcases List.mem_cons.mp mark with rfl | sign
      · simp
      · simp [List.mem_singleton.mp sign]
      · simp
      · simp [List.mem_singleton.mp sign]
  · exact .inl (digitChars_digit exponent)

theorem magnitude_numeral (layout : Layout) (member : c ∈ layout.magnitude bits) : Numeral c := by
  unfold Layout.magnitude at member
  split at member
  · exact placed_numeral (each_char (by decide)) member
  · dsimp only at member
    split at member
    · exact placed_numeral (fun c => significant_digits _) member
    · exact scientific_numeral (fun c => significant_digits _) member

theorem finite_numeral (layout : Layout) (member : c ∈ layout.finite bits) : Numeral c := by
  rcases List.mem_append.mp member with sign | magnitude
  · split at sign
    · rw [List.mem_singleton.mp sign]
      decide
    · cases sign
  · exact magnitude_numeral layout magnitude

theorem text_numeral (x : Float) (member : c ∈ (text x).toList) : Numeral c := by
  have undefined : ∀ c ∈ "NaN".toList, Numeral c := each_char (by decide)
  have least : ∀ c ∈ "-inf".toList, Numeral c := each_char (by decide)
  have greatest : ∀ c ∈ "inf".toList, Numeral c := each_char (by decide)
  unfold text at member
  dsimp only at member
  split at member
  · rw [String.toList_ofList] at member
    exact finite_numeral _ member
  · split at member
    · exact undefined c member
    · split at member
      · exact least c member
      · exact greatest c member

end InSitu.Decimal
