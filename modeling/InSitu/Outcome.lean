namespace InSitu

inductive Failure (ε : Type) where
  | error (cause : ε)
  | abort (note : Option String)
  deriving Repr, DecidableEq

namespace Failure

def isAbort : Failure ε → Bool
  | .error _ => false
  | .abort _ => true

def map (f : ε → δ) : Failure ε → Failure δ
  | .error cause => .error (f cause)
  | .abort note => .abort note

end Failure

-- An answer is never separated from the state reached: both come back in every case.
abbrev Outcome (ε α : Type) := Except (Failure ε) α

abbrev Act (σ ε : Type) := ExceptT (Failure ε) (StateM σ)

namespace Outcome

def isAbort : Outcome ε α → Bool
  | .ok _ => false
  | .error failure => failure.isAbort

def mapCause (f : ε → δ) : Outcome ε α → Outcome δ α
  | .ok a => .ok a
  | .error failure => .error (failure.map f)

end Outcome

namespace Act

def start (x : Act σ ε α) (s : σ) : Outcome ε α × σ := x s

def refuse (cause : ε) : Act σ ε α := fun s => (.error (.error cause), s)

def abort (note : Option String) : Act σ ε α := fun s => (.error (.abort note), s)

def mapCause (f : ε → δ) (x : Act σ ε α) : Act σ δ α := fun s =>
  (Outcome.mapCause f (x s).1, (x s).2)

def answer (outcome : Outcome ε α) : Act σ ε α := fun s => (outcome, s)

def within (get : σ → τ) (put : τ → σ → σ) (x : Act τ ε α) : Act σ ε α := fun s =>
  ((x (get s)).1, put (x (get s)).2 s)

theorem pure_exact (a : α) (s : σ) : (pure a : Act σ ε α) s = (.ok a, s) := rfl

theorem bind_exact (x : Act σ ε α) (f : α → Act σ ε β) (s : σ) :
    (x >>= f) s = match x s with
      | (.ok a, reached) => f a reached
      | (.error failure, reached) => (.error failure, reached) := by
  show (ExceptT.bind x f) s = _
  simp only [ExceptT.bind, ExceptT.mk, bind, StateT.bind, ExceptT.bindCont]
  rcases x s with ⟨(failure | a), reached⟩ <;> rfl

end Act

def sweep (visit : τ → Outcome ε α × τ) : List τ → Outcome ε (List α) × List τ
  | [] => (.ok [], [])
  | s :: rest =>
    match visit s with
    | (.error failure, reached) => (.error failure, reached :: rest)
    | (.ok a, reached) =>
      let (answers, others) := sweep visit rest
      (answers.map (a :: ·), reached :: others)

-- Workers are joined in order up to the first failure. A worker behind it that was aborted is never
-- joined, and then the whole call is aborted without a text.
def joinAll (crashed : ε) : List (Outcome ε α) → Outcome ε (List α)
  | [] => .ok []
  | .ok a :: rest => (joinAll crashed rest).map (a :: ·)
  | .error failure :: rest =>
    if rest.any Outcome.isAbort then .error (.abort none)
    else match failure with
      | .error cause => .error (.error cause)
      | .abort _ => .error (.error crashed)

end InSitu
