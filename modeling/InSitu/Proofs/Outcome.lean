import InSitu.Outcome
import Mathlib.Data.List.Forall2
namespace InSitu

namespace Act

theorem get_exact (s : σ) : (get : Act σ ε σ) s = (.ok s, s) := rfl

theorem modify_exact (f : σ → σ) (s : σ) : (modify f : Act σ ε Unit) s = (.ok (), f s) := rfl

theorem ite_exact {condition : Prop} [Decidable condition] (x y : Act σ ε α) (s : σ) :
    (if condition then x else y) s = if condition then x s else y s := by
  split <;> rfl

theorem return_exact (x : Act σ ε α) (f : α → β) (s : σ) :
    (do return f (← x) : Act σ ε β) s = ((x s).1.map f, (x s).2) := by
  rw [bind_exact]
  rcases x s with ⟨failure | a, reached⟩ <;> rfl

end Act

theorem forall₂_exists {r : α → β → Prop} {xs : List α} :
    (∃ ys, List.Forall₂ r xs ys) ↔ ∀ x ∈ xs, ∃ y, r x y := by
  induction xs with
  | nil => simp
  | cons x rest ih =>
    rw [List.forall_mem_cons, ← ih]
    constructor
    · intro ⟨ys, all⟩
      cases all with
      | cons first later => exact ⟨⟨_, first⟩, ⟨_, later⟩⟩
    · intro ⟨⟨y, first⟩, ⟨ys, later⟩⟩
      exact ⟨y :: ys, .cons first later⟩

namespace Outcome

theorem map_answer {outcome : Except φ α} {f : α → β} (answered : outcome.map f = .ok b) :
    ∃ a, outcome = .ok a ∧ f a = b := by
  cases outcome with
  | error failure => cases answered
  | ok a => exact ⟨a, rfl, Except.ok.inj answered⟩

theorem map_failure {outcome : Except φ α} {f : α → β} {cause : φ}
    (failed : outcome.map f = .error cause) : outcome = .error cause := by
  cases outcome with
  | error found => exact congrArg Except.error (Except.error.inj failed)
  | ok a => cases failed

end Outcome

section Sweep
variable {visit : τ → Outcome ε α × τ} {states : List τ}

theorem sweep_place (visit : τ → Outcome ε α × τ) (states : List τ) (place : Nat) :
    (sweep visit states).2[place]? = states[place]? ∨
      (sweep visit states).2[place]? = states[place]?.map fun s => (visit s).2 := by
  induction states generalizing place with
  | nil => exact .inl rfl
  | cons head rest ih =>
    unfold sweep
    rcases visited : visit head with ⟨failure | a, reached⟩
    · cases place with
      | zero => exact .inr (by simp [visited])
      | succ place => exact .inl rfl
    · cases place with
      | zero => exact .inr (by simp [visited])
      | succ place => exact ih place

theorem sweep_keeps {valid : τ → Prop} (kept : ∀ s ∈ states, valid s → valid (visit s).2)
    (before : ∀ s ∈ states, valid s) : ∀ s ∈ (sweep visit states).2, valid s := by
  intro s member
  obtain ⟨place, there⟩ := List.mem_iff_getElem?.mp member
  rcases sweep_place visit states place with left | visited
  · exact before s (List.mem_of_getElem? (left ▸ there))
  · obtain ⟨earlier, found, rfl⟩ := Option.map_eq_some_iff.mp (visited ▸ there)
    have listed := List.mem_of_getElem? found
    exact kept earlier listed (before earlier listed)

theorem sweep_same {shape : τ → β} (kept : ∀ s ∈ states, shape (visit s).2 = shape s) :
    (sweep visit states).2.map shape = states.map shape := by
  apply List.ext_getElem?
  intro place
  rw [List.getElem?_map, List.getElem?_map]
  rcases sweep_place visit states place with left | visited
  · rw [left]
  · rw [visited]
    cases found : states[place]? with
    | none => rfl
    | some s => exact congrArg some (kept s (List.mem_of_getElem? found))

theorem sweep_answers (answered : (sweep visit states).1 = .ok answers) :
    states.map (fun s => (visit s).1) = answers.map .ok ∧
      (sweep visit states).2 = states.map fun s => (visit s).2 := by
  induction states generalizing answers with
  | nil =>
    cases answered
    exact ⟨rfl, rfl⟩
  | cons head rest ih =>
    unfold sweep at answered ⊢
    rcases visited : visit head with ⟨failure | a, reached⟩
    · rw [visited] at answered
      cases answered
    · rw [visited] at answered
      obtain ⟨others, later, rfl⟩ := Outcome.map_answer answered
      obtain ⟨same, states⟩ := ih later
      simp [visited, same, states]

theorem sweep_each (answered : (sweep visit states).1 = .ok answers) :
    ∀ s ∈ states, ∃ a, (visit s).1 = .ok a := by
  intro s member
  have listed : (visit s).1 ∈ answers.map .ok := (sweep_answers answered).1 ▸ List.mem_map_of_mem member
  obtain ⟨a, -, answer⟩ := List.mem_map.mp listed
  exact ⟨a, answer.symm⟩

theorem sweep_images (each : states.map (fun s => (visit s).1) = answers.map .ok) :
    (sweep visit states).1 = .ok answers := by
  induction states generalizing answers with
  | nil =>
    cases List.map_eq_nil_iff.mp each.symm
    rfl
  | cons head rest ih =>
    obtain ⟨a, others, rfl, first, later⟩ := List.map_eq_cons_iff.mp each.symm
    replace first : .ok a = (visit head).1 := first
    unfold sweep
    rcases visited : visit head with ⟨failure | b, reached⟩ <;> rw [visited] at first
    · cases first
    · cases first
      simp [ih later.symm, Except.map]

theorem sweep_outlines {f : α → β} {outline : τ → β} (answered : (sweep visit states).1 = .ok answers)
    (each : ∀ s ∈ states, ∀ a, (visit s).1 = .ok a → f a = outline s) :
    answers.map f = states.map outline := by
  induction states generalizing answers with
  | nil =>
    cases answered
    rfl
  | cons head rest ih =>
    have first := each head (by simp)
    unfold sweep at answered
    rcases visited : visit head with ⟨failure | a, reached⟩ <;> rw [visited] at answered first
    · cases answered
    · obtain ⟨others, later, rfl⟩ := Outcome.map_answer answered
      rw [List.map_cons, ih later fun s member => each s (List.mem_cons_of_mem _ member), first a rfl]
      rfl

theorem sweep_shapes {answer : τ → α} (answered : (sweep visit states).1 = .ok answers)
    (each : ∀ s ∈ states, ∀ a, (visit s).1 = .ok a → a = answer s) :
    answers = states.map answer := by
  rw [← sweep_outlines (f := id) answered each, List.map_id]

-- What stands in front of the first failing state was visited, and what stands behind it was not.
theorem sweep_stops {failure : Failure ε} (failed : (sweep visit states).1 = .error failure) :
    ∃ front s behind, states = front ++ s :: behind ∧
      (∀ earlier ∈ front, ∃ a, (visit earlier).1 = .ok a) ∧ (visit s).1 = .error failure ∧
      (sweep visit states).2 = front.map (fun earlier => (visit earlier).2) ++ (visit s).2 :: behind := by
  induction states with
  | nil => cases failed
  | cons head rest ih =>
    unfold sweep at failed ⊢
    rcases visited : visit head with ⟨found | a, reached⟩ <;> rw [visited] at failed
    · cases failed
      exact ⟨[], head, rest, rfl, by simp, by rw [visited], by rw [visited]; rfl⟩
    · obtain ⟨front, s, behind, rfl, answered, failing, swept⟩ := ih (Outcome.map_failure failed)
      refine ⟨head :: front, s, behind, rfl, ?_, failing, ?_⟩
      · simpa [visited] using answered
      · simp [visited, swept]

theorem sweep_fails {failure : Failure ε} (failed : (sweep visit states).1 = .error failure) :
    ∃ s ∈ states, (visit s).1 = .error failure := by
  obtain ⟨front, s, behind, rfl, -, failing, -⟩ := sweep_stops failed
  exact ⟨s, by simp, failing⟩

theorem sweep_complete (each : ∀ s ∈ states, ∃ a, (visit s).1 = .ok a) :
    ∃ answers, (sweep visit states).1 = .ok answers := by
  cases swept : (sweep visit states).1 with
  | ok answers => exact ⟨answers, rfl⟩
  | error failure =>
    obtain ⟨s, member, failed⟩ := sweep_fails swept
    obtain ⟨a, answered⟩ := each s member
    cases failed.symm.trans answered

end Sweep

theorem joinAll_answers : joinAll crashed outcomes = .ok answers ↔ outcomes = answers.map .ok := by
  induction outcomes generalizing answers with
  | nil => simp [joinAll, eq_comm]
  | cons outcome rest ih =>
    constructor
    · intro joined
      unfold joinAll at joined
      rcases outcome with failure | a
      · cases failure <;> simp at joined <;> split at joined <;> cases joined
      · obtain ⟨others, later, rfl⟩ := Outcome.map_answer joined
        rw [ih.mp later]
        rfl
    · intro same
      cases answers with
      | nil => cases same
      | cons a others =>
        obtain ⟨rfl, later⟩ := List.cons.inj same
        simp [joinAll, ih.mpr later, Except.map]

theorem joinAll_through : (∃ answers, joinAll crashed outcomes = .ok answers) ↔
    ∀ outcome ∈ outcomes, ∃ a, outcome = .ok a := by
  constructor
  · intro joined outcome member
    obtain ⟨answers, joined⟩ := joined
    rw [joinAll_answers.mp joined] at member
    obtain ⟨a, -, rfl⟩ := List.mem_map.mp member
    exact ⟨a, rfl⟩
  · intro each
    induction outcomes with
    | nil => exact ⟨[], rfl⟩
    | cons outcome rest ih =>
      obtain ⟨a, rfl⟩ := each outcome (by simp)
      obtain ⟨others, joined⟩ := ih fun other member => each other (List.mem_cons_of_mem _ member)
      exact ⟨a :: others, by simp [joinAll, joined, Except.map]⟩

def Unjoined (outcomes : List (Outcome ε α)) : Prop :=
  ∃ (first other : Nat) (failure : Failure ε) (note : Option String), first < other ∧
    outcomes[first]? = some (.error failure) ∧ outcomes[other]? = some (.error (.abort note))

def Failure.told (crashed : ε) : Failure ε → ε
  | .error cause => cause
  | .abort _ => crashed

theorem unjoined_behind {rest : List (Outcome ε α)} {failure : Failure ε} :
    Unjoined (.error failure :: rest) ↔ rest.any Outcome.isAbort := by
  rw [List.any_eq_true]
  constructor
  · rintro ⟨first, other, found, note, behind, -, there⟩
    cases other with
    | zero => cases behind
    | succ other => exact ⟨_, List.mem_of_getElem? there, rfl⟩
  · rintro ⟨outcome, member, aborted⟩
    obtain ⟨place, there⟩ := List.mem_iff_getElem?.mp member
    rcases outcome with (cause | note) | a
    · cases aborted
    · exact ⟨0, place + 1, failure, note, Nat.succ_pos _, rfl, there⟩
    · cases aborted

theorem unjoined_answered {rest : List (Outcome ε α)} {a : α} :
    Unjoined (.ok a :: rest) ↔ Unjoined rest := by
  constructor
  · rintro ⟨first, other, failure, note, behind, failed, aborted⟩
    cases first with
    | zero => cases failed
    | succ first =>
      cases other with
      | zero => cases behind
      | succ other =>
        exact ⟨first, other, failure, note, Nat.lt_of_succ_lt_succ behind, failed, aborted⟩
  · rintro ⟨first, other, failure, note, behind, failed, aborted⟩
    exact ⟨first + 1, other + 1, failure, note, Nat.succ_lt_succ behind, failed, aborted⟩

-- The verdict is that of the first worker that failed, unless a worker is left unjoined.
theorem joinAll_verdict (crashed : ε) (outcomes : List (Outcome ε α)) :
    (∃ answers, joinAll crashed outcomes = .ok answers) ∨
    ∃ (first : Nat) (failure : Failure ε), outcomes[first]? = some (.error failure) ∧
      ((Unjoined outcomes ∧ joinAll crashed outcomes = .error (.abort none)) ∨
        (¬ Unjoined outcomes ∧
          joinAll crashed outcomes = .error (.error (failure.told crashed)))) := by
  induction outcomes with
  | nil => exact .inl ⟨[], rfl⟩
  | cons outcome rest ih =>
    rcases outcome with failure | a
    · refine .inr ⟨0, failure, rfl, ?_⟩
      rw [unjoined_behind]
      by_cases behind : rest.any Outcome.isAbort
      · exact .inl ⟨behind, by simp [joinAll, behind]⟩
      · refine .inr ⟨behind, ?_⟩
        cases failure <;> simp [joinAll, behind, Failure.told]
    · rw [unjoined_answered]
      rcases ih with ⟨answers, joined⟩ | ⟨first, failure, failed, joined⟩
      · exact .inl ⟨a :: answers, by simp [joinAll, joined, Except.map]⟩
      · refine .inr ⟨first + 1, failure, failed, joined.imp ?_ ?_⟩
        · rintro ⟨unjoined, verdict⟩
          exact ⟨unjoined, by simp [joinAll, verdict, Except.map]⟩
        · rintro ⟨joined, verdict⟩
          exact ⟨joined, by simp [joinAll, verdict, Except.map]⟩

end InSitu
