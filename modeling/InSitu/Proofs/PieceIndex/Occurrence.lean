import InSitu.PieceIndex
namespace InSitu.PieceIndex

theorem splitAtFirst_exact : splitAtFirst pattern text = some (before, after) ↔
    text = before ++ pattern ++ after ∧ ∀ k < before.length, ¬ pattern <+: text.drop k := by
  induction text generalizing before with
  | nil =>
    by_cases empty : pattern = []
    · subst empty
      simp only [splitAtFirst, if_true, Option.some.injEq, Prod.mk.injEq]
      constructor
      · rintro ⟨rfl, rfl⟩
        simp
      · rintro ⟨split, -⟩
        simpa [eq_comm] using split
    · simp [splitAtFirst, empty]
  | cons c rest ih =>
    by_cases here : pattern <+: c :: rest
    · obtain ⟨behind, joined⟩ := here
      have found : splitAtFirst pattern (c :: rest) = some ([], behind) := by
        rw [splitAtFirst, if_pos (List.isPrefixOf_iff_prefix.mpr ⟨behind, joined⟩), ← joined,
          List.drop_left]
      rw [found]
      constructor
      · intro equal
        cases equal
        exact ⟨by simp [joined], by simp⟩
      · rintro ⟨split, first⟩
        cases before with
        | nil => simp_all
        | cons _ _ => exact absurd ⟨behind, joined⟩ (first 0 (by simp))
    · have missed : ¬ pattern.isPrefixOf (c :: rest) = true := fun found =>
        here (List.isPrefixOf_iff_prefix.mp found)
      rw [splitAtFirst, if_neg missed]
      constructor
      · intro found
        obtain ⟨⟨front, behind⟩, further, equal⟩ := Option.map_eq_some_iff.mp found
        cases equal
        obtain ⟨split, first⟩ := ih.mp further
        refine ⟨by simp [split], ?_⟩
        intro k below
        cases k with
        | zero => exact here
        | succ k => exact first k (by simpa using below)
      · rintro ⟨split, first⟩
        cases before with
        | nil => exact absurd ⟨after, by simpa using split.symm⟩ here
        | cons head front =>
          obtain ⟨rfl, tail⟩ : c = head ∧ rest = front ++ pattern ++ after := by simpa using split
          have further : splitAtFirst pattern rest = some (front, after) := ih.mpr
            ⟨tail, fun k below => by simpa using first (k + 1) (by simpa using below)⟩
          rw [further]
          rfl

theorem marked_before_quote {front part : List Char} (unquoted : quote ∉ front)
    (unmarked : mark ∉ part) (closing : quote ∈ part) :
    front ++ mark :: behind ≠ part ++ beyond := by
  intro same
  rcases List.append_eq_append_iff.mp same with ⟨more, split, later⟩ | ⟨more, split, -⟩
  · subst split
    cases more with
    | nil => exact unquoted (by simpa using closing)
    | cons c more =>
      cases later
      exact unmarked (by simp)
  · exact unquoted (split ▸ List.mem_append_left _ closing)

theorem mark_reached {front part : List Char} (longer : front.length < part.length)
    (same : part ++ beyond = front ++ mark :: behind) : mark ∈ part := by
  rcases List.append_eq_append_iff.mp same with ⟨more, split, -⟩ | ⟨more, split, later⟩
  · have := congrArg List.length split
    simp only [List.length_append] at this
    omega
  · subst split
    cases more with
    | nil => simp at longer
    | cons c more =>
      cases later
      simp

-- `name` is quoted twice, with `middle` between the quotations. The pattern is the second one, from
-- its `lead` to a `mark` behind the name. An occurrence that began inside the first quotation would
-- shift the name against itself. Marks are then counted over the same stretch twice: in the name
-- alone, and in `middle` and `lead`, where there are none, with what is left of the name.
theorem no_overlap {name lead front middle : List Char}
    (quiet : mark ∉ middle ++ lead) (closing : lead = opened ++ [quote])
    (unquoted : quote ∉ front) (short : front.length < middle.length)
    (split : name = early ++ late) :
    ¬ lead ++ name ++ (front ++ mark :: back) <+:
      late ++ (middle ++ (lead ++ name ++ (front ++ mark :: back)) ++ rest) := by
  rintro ⟨behind, joined⟩
  have whole : (early ++ lead ++ name) ++ (front ++ mark :: (back ++ behind)) =
      name ++ ((middle ++ lead) ++ (name ++ (front ++ mark :: (back ++ rest)))) := by
    have prefixed := congrArg (early ++ ·) joined
    simp only [List.append_assoc, List.cons_append] at prefixed ⊢
    rw [prefixed, split]
    simp only [List.append_assoc]
  -- `shift` is what stands behind the first name up to the end of the occurrence's name.
  obtain ⟨shift, covered, later⟩ : ∃ shift, early ++ lead ++ name = name ++ shift ∧
      (middle ++ lead) ++ (name ++ (front ++ mark :: (back ++ rest))) =
        shift ++ (front ++ mark :: (back ++ behind)) := by
    rcases List.append_eq_append_iff.mp whole with ⟨more, short, -⟩ | found
    · have := congrArg List.length short
      simp only [closing, List.length_append, List.length_singleton] at this
      omega
    · exact found
  have length := congrArg List.length covered
  have count := congrArg (List.count mark) covered
  obtain ⟨unmarkedMiddle, unmarkedLead⟩ := not_or.mp (mt List.mem_append.mpr quiet)
  simp only [List.length_append] at length
  simp only [List.count_append, List.count_eq_zero.mpr unmarkedLead] at count
  obtain ⟨part, reached, onward⟩ : ∃ part, shift = middle ++ lead ++ part ∧
      name ++ (front ++ mark :: (back ++ rest)) = part ++ (front ++ mark :: (back ++ behind)) := by
    rcases List.append_eq_append_iff.mp later with found | ⟨part, within, beyond⟩
    · exact found
    · rcases List.eq_nil_or_concat part with rfl | ⟨init, last, rfl⟩
      · exact ⟨[], by simpa using within.symm, by simpa using beyond.symm⟩
      · have ending : last = quote := by
          have := congrArg List.getLast? within
          simpa [closing] using this.symm
        refine absurd beyond (marked_before_quote unquoted ?_ (by simp [ending]))
        intro inside
        exact quiet (within ▸ List.mem_append_right _ inside)
  subst reached
  simp only [List.count_append, List.length_append, List.count_eq_zero.mpr unmarkedMiddle,
    List.count_eq_zero.mpr unmarkedLead] at count length
  subst split
  -- What is left of the early part of the name has no mark, and yet goes on like the pattern's end.
  obtain ⟨left, parts, ends⟩ : ∃ left, early = part ++ left ∧
      left ++ (late ++ (front ++ mark :: (back ++ rest))) = front ++ mark :: (back ++ behind) := by
    rw [List.append_assoc] at onward
    rcases List.append_eq_append_iff.mp onward with ⟨more, longer, -⟩ | ⟨left, parts, ends⟩
    · have := congrArg List.length longer
      simp only [List.length_append] at this
      omega
    · exact ⟨left, parts, ends.symm⟩
  subst parts
  simp only [List.count_append, List.length_append] at count length
  have unmarked : mark ∉ left := List.count_eq_zero.mp (by omega)
  exact unmarked (mark_reached (by omega) ends)

end InSitu.PieceIndex
