import InSitu.Outcome
import InSitu.Scalar
import InSitu.Projection.Error
namespace InSitu

inductive Mode where
  | zeroCopy | copy | cache
  deriving DecidableEq, Repr

def Mode.text : Mode → String
  | .zeroCopy => "zero-copy"
  | .copy => "copy"
  | .cache => "cache"

def Mode.all : List Mode := [.zeroCopy, .copy, .cache]

def Mode.ofText? (text : String) : Option Mode := all.find? (·.text = text)

def Mode.ownsStorage (mode : Mode) : Bool := mode ≠ .zeroCopy

-- Reads the components of one attribute. `read` may show more scalars than there are components;
-- the rest is not part of the tuple. Nothing here promises that it shows enough of them.
structure Accessor (ο α : Type) where
  components : Nat
  read : ο → List α

namespace Accessor

def tuple? (a : Accessor ο α) (object : ο) : Option (List α) :=
  if a.components ≤ (a.read object).length then some ((a.read object).take a.components) else none

def describe (a : Accessor ο α) : String :=
  s!"MemberAccessor \x7b component_count: {a.components}, .. \x7d"

structure Copied (α : Type) where
  values : List α
  lookups : Nat
  complete : Bool

def copyAll (a : Accessor ο α) : List ο → Copied α
  | [] => ⟨[], 0, true⟩
  | object :: rest =>
    match a.tuple? object with
    | none => ⟨[], 1, false⟩
    | some tuple =>
      let others := copyAll a rest
      ⟨tuple ++ others.values, others.lookups + 1, others.complete⟩

end Accessor

structure Generation where
  index : Nat
  deriving DecidableEq, Repr

namespace Generation

def never : Generation := ⟨0⟩

def next? (g : Generation) : Option Generation :=
  if g.index + 1 < Nat.pow 2 64 then some ⟨g.index + 1⟩ else none

end Generation

structure Slot (α : Type) where
  value : α
  stamp : Generation

inductive Staging (α : Type) where
  | direct
  | copied (values : List α)
  | cached (slots : List (Slot α)) (current : Generation)

namespace Staging

def initial : Mode → Staging α
  | .zeroCopy => .direct
  | .copy => .copied []
  | .cache => .cached [] .never

def mode : Staging α → Mode
  | .direct => .zeroCopy
  | .copied _ => .copy
  | .cached _ _ => .cache

def generation : Staging α → Generation
  | .cached _ current => current
  | _ => .never

def resized [Scalar α] (slots : List (Slot α)) (size : Nat) : List (Slot α) :=
  slots.take size ++ List.replicate (size - slots.length) ⟨Scalar.zero, .never⟩

-- A new cycle leaves every slot in place and makes its stamp old. Where the counter is exhausted the
-- stamps are wiped, so that an old one cannot meet its number again.
def renewed [Scalar α] (slots : List (Slot α)) (current : Generation) (size : Nat) : Staging α :=
  match current.next? with
  | some next => .cached (resized slots size) next
  | none => .cached (resized (slots.map fun slot => {slot with stamp := .never}) size) ⟨1⟩

end Staging

structure Stats where
  refreshes : Nat
  accessorReads : Nat
  cacheHits : Nat
  deriving DecidableEq, Repr

structure Buffer (ο α : Type) where
  name : String
  accessor : Accessor ο α
  start : Nat
  stop : Nat
  staging : Staging α
  stats : Stats
  reserved : Bool
  components_pos : 0 < accessor.components

namespace Buffer

def initial (name : String) (mode : Mode) (accessor : Accessor ο α)
    (positive : 0 < accessor.components) : Buffer ο α :=
  { name, accessor, start := 0, stop := 0, staging := .initial mode, stats := ⟨0, 0, 0⟩
    reserved := false, components_pos := positive }

def new? (name : String) (mode : Mode) (accessor : Accessor ο α) :
    Except ProjectionError (Buffer ο α) :=
  if positive : 0 < accessor.components then .ok (initial name mode accessor positive)
  else .error (.invalidComponentCount name accessor.components)

def fork (b : Buffer ο α) : Buffer ο α :=
  initial b.name b.staging.mode b.accessor b.components_pos

def mode (b : Buffer ο α) : Mode := b.staging.mode
def components (b : Buffer ο α) : Nat := b.accessor.components
def tupleCount (b : Buffer ο α) : Nat := b.stop - b.start
def size (b : Buffer ο α) : Nat := b.components * b.tupleCount
def isEmpty (b : Buffer ο α) : Bool := b.start = b.stop
def generation (b : Buffer ο α) : Generation := b.staging.generation

def live? (b : Buffer ο α) (objects : List ο) (slot : Nat) : Option α := do
  let object ← objects[b.start + slot / b.components]?
  let tuple ← b.accessor.tuple? object
  tuple[slot % b.components]?

def counting (b : Buffer ο α) (refreshes reads hits : Nat) : Buffer ο α :=
  { b with stats := ⟨b.stats.refreshes + refreshes, b.stats.accessorReads + reads,
      b.stats.cacheHits + hits⟩ }

-- A refresh sets storage aside before it reads anything, and only where there is something to hold.
def bind (b : Buffer ο α) (start stop : Nat) : Buffer ο α :=
  { b with start, stop, reserved := b.reserved || (b.mode.ownsStorage && start < stop) }

def covers (b : Buffer ο α) (objects : List ο) : Except ProjectionError Unit :=
  if objects.length < b.stop then .error (.rangeOutOfBounds b.start b.stop objects.length)
  else .ok ()

end Buffer

structure Session (ο α : Type) where
  buffer : Buffer ο α
  lookups : Nat

namespace Session

def reading (s : Session ο α) : Session ο α :=
  ⟨s.buffer.counting 0 1 0, s.lookups + 1⟩

def staged (s : Session ο α) (staging : Staging α) : Session ο α :=
  {s with buffer := {s.buffer with staging := staging}}

def live (objects : List ο) (slot : Nat) : Act (Session ο α) ε α := fun s =>
  match s.buffer.live? objects slot with
  | some value => (.ok value, s.reading)
  | none => (.error (.abort none), s.reading)

def readSlot (objects : List ο) (slot : Nat) : Act (Session ο α) ε α := fun s =>
  match s.buffer.staging with
  | .direct => live objects slot s
  | .copied values =>
    match values[slot]? with
    | some value => (.ok value, s)
    | none => (.error (.abort none), s)
  | .cached slots current =>
    match slots[slot]? with
    | none => (.error (.abort none), s)
    | some held =>
      if held.stamp = current then
        (.ok held.value, {s with buffer := s.buffer.counting 0 0 1})
      else match live objects slot s with
        | (.ok value, reached) =>
          (.ok value, reached.staged (.cached (slots.set slot ⟨value, current⟩) current))
        | (.error failure, reached) => (.error failure, reached)

-- A refused refresh changes nothing. A copy that is cut short keeps the new range and the tuples
-- before the bad object; neither the refresh nor its reads are counted then.
def refresh [Scalar α] (objects : List ο) (start stop : Nat) :
    Act (Session ο α) ProjectionError Unit := fun s =>
  if stop < start ∨ objects.length < stop then
    (.error (.error (.rangeOutOfBounds start stop objects.length)), s)
  else
    let bound := s.buffer.bind start stop
    match bound.staging with
    | .direct => (.ok (), {s with buffer := bound.counting 1 0 0})
    | .copied _ =>
      let copied := bound.accessor.copyAll ((objects.drop start).take (stop - start))
      let reached : Session ο α :=
        ⟨{bound with staging := .copied copied.values}, s.lookups + copied.lookups⟩
      if copied.complete then
        (.ok (), {reached with buffer := reached.buffer.counting 1 (stop - start) 0})
      else (.error (.abort none), reached)
    | .cached slots current =>
      (.ok (), {s with
        buffer := {bound with staging := .renewed slots current bound.size}.counting 1 0 0})

end Session
end InSitu
