import InSitu.Proofs.Projection.Agreement
namespace InSitu
namespace Session

structure Transfer (ο α : Type) where
  session : Session ο α
  out : List α

-- A place out of bounds aborts with a text, here as in `valueAt`. A slot that shows nothing does not.
def write (value : α) (target : Nat) : Act (Transfer ο α) ε Unit := fun t =>
  if target < t.out.length then (.ok (), {t with out := t.out.set target value})
  else (.error (.abort (some s!"output: index {target} out of range for {t.out.length} values")), t)

theorem readSlots_aborts {s : Session ο α} {failure : Failure ε}
    (failed : (readSlots objects slots s).1 = .error failure) : failure = .abort none := by
  induction slots generalizing s with
  | nil => cases failed
  | cons slot rest ih =>
    have answer := readSlot_answer (ε := ε) objects slot s
    simp only [readSlots, Act.bind_exact] at failed
    rcases read : readSlot (ε := ε) objects slot s with ⟨first | value, reached⟩ <;>
      rw [read] at failed answer
    · cases failed
      unfold Outcome.given at answer
      split at answer <;> cases answer
      rfl
    · dsimp only at failed
      rcases later : readSlots (ε := ε) objects rest reached with ⟨other | values, last⟩ <;>
        rw [later] at failed <;> cases failed
      exact ih (congrArg Prod.fst later)

end Session
end InSitu
