import InSitu.Proofs.Adaptor.Ledger
import InSitu.Proofs.Grid.Labels
import Mathlib.Logic.Relation
namespace InSitu.Adaptor

section Each
variable {valid : Grid ο → Prop}

end Each

-- What is called between the start and the end of a run, with the grid that it registers or selects
-- columns of. What is refused here has changed nothing, but a call for a step may come to anything.
inductive Call {ο ω : Type} : Option String → Adaptor ο × Host ω → Adaptor ο × Host ω → Prop where
  | added (called : String) (within : '/' ∉ called.toList) (added : a.addGrid called = .ok next) :
      Call none (a, host) (next, host)
  | registered (there : g ∈ a.grids) (attr : Attribute) (type : ScalarType)
      (accessor : Accessor ο type.Carrier)
      (added : g.addAttribute attr type accessor = .ok (number, next)) :
      Call (some g.name) (a, host) (a.setGrid next, host)
  | selected (there : g ∈ a.grids) (selection : Option AttributeSet)
      (selected : g.select selection = .ok next) :
      Call (some g.name) (a, host) (a.setGrid next, host)
  | called (visualizes : Visualizes source step (a, host) (outcome, next)) : Call none (a, host) next

def Calls (s next : Adaptor ο × Host ω) : Prop := ∃ touched, Call touched s next

-- Calls that leave the columns of one grid as they are registered and selected.
def CallsApart (name : String) (s next : Adaptor ο × Host ω) : Prop :=
  ∃ touched, touched ≠ some name ∧ Call touched s next

theorem CallsApart.calls {s next : Adaptor ο × Host ω} (apart : CallsApart name s next) :
    Calls s next := by
  obtain ⟨touched, -, call⟩ := apart
  exact ⟨touched, call⟩

variable {config : Config} {staff : Nat}

structure Holds (files : Files) (directory : Path) (info : GridInfo) (step number : Nat)
    (piece : Piece) : Prop where
  reads : files.readText (directory.join (Piece.fileName info.name step number)) = .ok piece.text
  grid_eq : piece.grid = info.name
  step_eq : piece.step = step
  worker_eq : piece.worker = number
  labels : piece.columns.map PieceColumn.label = info.attributes.map AttributeInfo.label

end InSitu.Adaptor
