import InSitu.Proofs.PieceIndex.Occurrence
namespace InSitu.PieceIndex

def Occurs (pattern text : String) : Prop := ∃ before after, text = before ++ pattern ++ after

structure First (pattern text before after : String) : Prop where
  split : text = before ++ pattern ++ after
  least : ∀ front behind, text = front ++ pattern ++ behind → before.length ≤ front.length

inductive Unbroken : String → String → Prop where
  | broken (rest : String) : Unbroken ("\n" ++ rest) rest
  | whole (unbroken : ∀ rest, text ≠ "\n" ++ rest) : Unbroken text text

def lines (grid : String) (step : Nat) (workers : List Nat) : String :=
  String.join (workers.map fun worker => entry grid step worker ++ "\n")

theorem splitAtFirst_none {pattern text : List Char} :
    splitAtFirst pattern text = none ↔ ¬ pattern <:+: text := by
  induction text with
  | nil => simp [splitAtFirst]
  | cons c rest ih =>
    rw [splitAtFirst, List.infix_cons_iff, ← List.isPrefixOf_iff_prefix]
    by_cases here : pattern.isPrefixOf (c :: rest) = true
    · simp [here]
    · rw [if_neg here, Option.map_eq_none_iff, ih]
      simp [here]

-- An occurrence that begins in front of another one ends within it. So it does not depend on what
-- stands behind.
theorem occurrence_behind {pattern before : List Char} (earlier : k < before.length)
    (occurs : pattern <+: (before ++ pattern ++ after).drop k) (other : List Char) :
    pattern <+: (before ++ pattern ++ other).drop k := by
  have inside : k ≤ (before ++ pattern).length := by
    rw [List.length_append]
    omega
  rw [List.drop_append_of_le_length inside] at occurs ⊢
  have short : pattern.length ≤ ((before ++ pattern).drop k).length := by
    rw [List.length_drop, List.length_append]
    omega
  have within : pattern <+: (before ++ pattern).drop k :=
    List.prefix_of_prefix_length_le occurs (List.prefix_append ..) short
  exact within.trans (List.prefix_append ..)

theorem splitAtFirst_behind {pattern text before after : List Char}
    (found : splitAtFirst pattern text = some (before, after)) (other : List Char) :
    splitAtFirst pattern (before ++ pattern ++ other) = some (before, other) := by
  obtain ⟨rfl, first⟩ := splitAtFirst_exact.mp found
  exact splitAtFirst_exact.mpr
    ⟨rfl, fun k earlier occurs => first k earlier (occurrence_behind earlier occurs after)⟩

theorem occurs_within {pattern text : String} : Occurs pattern text ↔ pattern.toList <:+: text.toList := by
  constructor
  · rintro ⟨before, after, rfl⟩
    exact ⟨before.toList, after.toList, by simp⟩
  · rintro ⟨before, after, same⟩
    refine ⟨.ofList before, .ofList after, String.toList_injective ?_⟩
    simp [← same]

theorem first_exact {pattern text before after : String} :
    splitAtFirst pattern.toList text.toList = some (before.toList, after.toList) ↔
      First pattern text before after := by
  rw [splitAtFirst_exact]
  constructor
  · rintro ⟨split, first⟩
    refine ⟨String.toList_injective (by simp [split]), ?_⟩
    rintro front behind rfl
    refine Nat.not_lt.mp fun earlier => first front.length earlier ?_
    rw [← String.length_toList]
    simp
  · rintro ⟨split, least⟩
    refine ⟨by simp [split], fun k earlier ⟨behind, joined⟩ => ?_⟩
    have parts : text = .ofList (text.toList.take k) ++ pattern ++ .ofList behind := by
      apply String.toList_injective
      simp [joined]
    have bound := least _ _ parts
    rw [String.length_ofList, List.length_take, ← String.length_toList] at bound
    omega

theorem First.behind (first : First pattern text before after) (other : String) :
    First pattern (before ++ pattern ++ other) before other := by
  have found := splitAtFirst_behind (first_exact.mpr first) other.toList
  exact first_exact.mp (by simpa using found)

theorem occurs_first {pattern text : String} (occurs : Occurs pattern text) :
    ∃ before after, First pattern text before after := by
  cases found : splitAtFirst pattern.toList text.toList with
  | none => exact absurd (occurs_within.mp occurs) (splitAtFirst_none.mp found)
  | some parts =>
    obtain ⟨before, after⟩ := parts
    exact ⟨.ofList before, .ofList after, first_exact.mp (by simpa using found)⟩

theorem unbroken_exact {text rest : String} :
    Unbroken text rest ↔ dropLineBreak text.toList = rest.toList := by
  constructor
  · rintro (rest | unbroken)
    · simp [dropLineBreak]
    · unfold dropLineBreak
      split
      · rename_i rest shape
        exact absurd (String.toList_injective (by simp [shape])) (unbroken (.ofList rest))
      · rfl
  · intro dropped
    unfold dropLineBreak at dropped
    split at dropped
    · rename_i rest shape
      obtain rfl : text = "\n" ++ .ofList rest := String.toList_injective (by simp [shape])
      rw [dropped, String.ofList_toList]
      exact .broken _
    · rename_i shape
      obtain rfl := String.toList_injective dropped
      exact .whole fun rest same => shape rest.toList (by simp [same])

theorem lines_chars (grid : String) (step : Nat) (workers : List Nat) :
    (lines grid step workers).toList =
      workers.flatMap fun worker => (entry grid step worker).toList ++ ['\n'] := by
  rw [lines, String.toList_join, List.flatMap_map]
  simp only [String.toList_append]
  rfl

theorem lines_cons (grid : String) (step worker : Nat) (rest : List Nat) :
    lines grid step (worker :: rest) = entry grid step worker ++ "\n" ++ lines grid step rest := by
  apply String.toList_injective
  simp [lines_chars]

theorem expand_first (first : First (entry grid step 0) index before after)
    (unbroken : Unbroken after rest) (pieces : Nat) :
    expand? index grid step pieces = some (before ++ lines grid step (List.range pieces) ++ rest) := by
  have text : String.ofList (before.toList ++ entries grid step pieces ++ rest.toList) =
      before ++ lines grid step (List.range pieces) ++ rest := by
    apply String.toList_injective
    simp [lines_chars, entries]
  rw [← text, ← unbroken_exact.mp unbroken, expand?, first_exact.mpr first]
  rfl

structure Expands (index grid : String) (step : Nat) (before after rest : String) : Prop where
  first : First (entry grid step 0) index before after
  unbroken : Unbroken after rest
  once : ∀ pieces, expand? index grid step pieces =
    some (before ++ lines grid step (List.range pieces) ++ rest)
  same : expand? index grid step 1 = some index ↔ after = "\n" ++ rest
  again : ∀ pieces, First (entry grid step 0)
      (before ++ lines grid step (List.range (pieces + 1)) ++ rest) before
      ("\n" ++ (lines grid step (List.range' 1 pieces) ++ rest))
  twice : ∀ pieces more, (expand? index grid step (pieces + 1)).bind (expand? · grid step more) =
    some (before ++ lines grid step (List.range more) ++
      (lines grid step (List.range' 1 pieces) ++ rest))

theorem first_expands (first : First (entry grid step 0) index before after)
    (unbroken : Unbroken after rest) : Expands index grid step before after rest := by
  have again : ∀ pieces, First (entry grid step 0)
      (before ++ lines grid step (List.range (pieces + 1)) ++ rest) before
      ("\n" ++ (lines grid step (List.range' 1 pieces) ++ rest)) := by
    intro pieces
    have text : before ++ lines grid step (List.range (pieces + 1)) ++ rest =
        before ++ entry grid step 0 ++ ("\n" ++ (lines grid step (List.range' 1 pieces) ++ rest)) := by
      rw [List.range_eq_range', List.range'_succ, lines_cons]
      simp only [String.append_assoc]
    rw [text]
    exact first.behind _
  refine ⟨first, unbroken, expand_first first unbroken, ?_, again, ?_⟩
  · rw [expand_first first unbroken, first.split, Option.some_inj, List.range_one, lines_cons]
    simp only [String.append_assoc, String.append_right_inj]
    exact eq_comm
  · intro pieces more
    rw [expand_first first unbroken, Option.bind_some]
    exact expand_first (again pieces) (.broken _) more

-- For every text: there is nothing to expand exactly if the entry of piece 0 does not occur in it.
-- Otherwise its first occurrence gives way to the entries of all pieces, and so it does in the result.
theorem expansions_exact (index grid : String) (step : Nat) :
    (∀ pieces, expand? index grid step pieces = none ↔ ¬ Occurs (entry grid step 0) index) ∧
    (Occurs (entry grid step 0) index ↔
      ∃ before after rest, Expands index grid step before after rest) := by
  constructor
  · intro pieces
    rw [expand?, Option.map_eq_none_iff, splitAtFirst_none, occurs_within]
  · constructor
    · intro occurs
      obtain ⟨before, after, first⟩ := occurs_first occurs
      exact ⟨before, after, _, first_expands first (unbroken_exact.mpr String.toList_ofList.symm)⟩
    · rintro ⟨before, after, rest, expands⟩
      exact ⟨before, after, expands.first.split⟩

end InSitu.PieceIndex
