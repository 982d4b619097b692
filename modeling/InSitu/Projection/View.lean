import InSitu.Projection.Buffer
namespace InSitu.Session

-- A view of a collection that ends before the bound range is refused by `tryView` and aborted by
-- `view`.
def tryView (objects : List ο) : Act (Session ο α) ProjectionError Unit := fun s =>
  match s.buffer.covers objects with
  | .ok () => (.ok (), s)
  | .error cause => (.error (.error cause), s)

def view (objects : List ο) : Act (Session ο α) ε Unit := fun s =>
  match s.buffer.covers objects with
  | .ok () => (.ok (), s)
  | .error cause => (.error (.abort (some s!"projection '{s.buffer.name}': {cause.message}")), s)

def readSlots (objects : List ο) : List Nat → Act (Session ο α) ε (List α)
  | [] => pure []
  | slot :: rest => do
    let value ← readSlot objects slot
    let others ← readSlots objects rest
    return value :: others

def valueAt (objects : List ο) (index : Nat) : Act (Session ο α) ε α := do
  let b := (← get).buffer
  if index < b.size then readSlot objects index
  else Act.abort (some
    s!"projection '{b.name}': index {index} out of range for {b.size} values")

def tryValueAt (objects : List ο) (index : Nat) : Act (Session ο α) ProjectionError α := do
  let b := (← get).buffer
  if index < b.size then readSlot objects index
  else Act.refuse (.indexOutOfRange index b.size)

def get? (objects : List ο) (index : Nat) : Act (Session ο α) ε (Option α) := do
  let b := (← get).buffer
  if index < b.size then return some (← readSlot objects index) else return none

def valuesAt (objects : List ο) : List Nat → Act (Session ο α) ε (List α)
  | [] => pure []
  | index :: rest => do
    let value ← valueAt objects index
    let others ← valuesAt objects rest
    return value :: others

def slotsOf (b : Buffer ο α) (tuple count : Nat) : List Nat :=
  (List.range (count * b.components)).map (tuple * b.components + ·)

def tupleAt (objects : List ο) (tuple : Nat) : Act (Session ο α) ε (List α) := do
  let b := (← get).buffer
  valuesAt objects (slotsOf b tuple 1)

def tryTupleAt (objects : List ο) (tuple : Nat) : Act (Session ο α) ProjectionError (List α) := do
  let b := (← get).buffer
  if tuple < b.tupleCount then tupleAt objects tuple
  else Act.refuse (.tupleOutOfRange tuple b.tupleCount)

def widenedTuple [Scalar α] (objects : List ο) (tuple : Nat) :
    Act (Session ο α) ε (List Float) := do
  return (← tupleAt objects tuple).map Scalar.widen

def searchIn [Scalar α] (objects : List ο) (value : α) : List Nat → Act (Session ο α) ε (Option Nat)
  | [] => pure none
  | slot :: rest => do
    let found ← readSlot objects slot
    if found == value then return some slot else searchIn objects value rest

def linearSearch [Scalar α] (objects : List ο) (value : α) (start : Nat) :
    Act (Session ο α) ε (Option Nat) := do
  let b := (← get).buffer
  searchIn objects value ((List.range b.size).drop start)

-- A search goes on behind each hit, until one finds nothing. Every round but the last has a hit, and
-- hits lie behind each other, so there are at most as many of them as slots.
def lookupRounds [Scalar α] (objects : List ο) (value : α) :
    Nat → Nat → Act (Session ο α) ε (List Nat)
  | 0, _ => pure []
  | rounds + 1, start => do
    match ← linearSearch objects value start with
    | none => return []
    | some hit =>
      let hits ← lookupRounds objects value rounds (hit + 1)
      return hit :: hits

def lookupAll [Scalar α] (objects : List ο) (value : α) : Act (Session ο α) ε (List Nat) := do
  let b := (← get).buffer
  lookupRounds objects value (b.size + 1) 0

abbrev Written (α β : Type) := Except ProjectionError β × List α

def overwrite (values out : List α) : List α := values ++ out.drop values.length

def gatherIn (objects : List ο) : List Nat → Act (Session ο α) ε (Written α Unit)
  | [] => pure (.ok (), [])
  | tuple :: rest => do
    let b := (← get).buffer
    if tuple < b.tupleCount then
      let values ← readSlots objects (slotsOf b tuple 1)
      let (verdict, others) ← gatherIn objects rest
      return (verdict, values ++ others)
    else return (.error (.tupleOutOfRange tuple b.tupleCount), [])

def gatherTuples (objects : List ο) (tuples : List Nat) (out : List α) :
    Act (Session ο α) ε (Written α Unit) := do
  let b := (← get).buffer
  let required := tuples.length * b.components
  if out.length < required then return (.error (.outputTooSmall required out.length), out)
  else
    let (verdict, values) ← gatherIn objects tuples
    return (verdict, overwrite values out)

-- Tuples `first` to `last`, both included, and how many they are. A range that ends before it starts
-- is empty wherever its ends lie.
def copyTupleRange (objects : List ο) (first last : Nat) (out : List α) (outComponents : Nat) :
    Act (Session ο α) ε (Written α Nat) := do
  let b := (← get).buffer
  let copied := last - first + 1
  let required := copied * b.components
  if outComponents ≠ b.components then
    return (.error (.componentMismatch b.components outComponents), out)
  else if last < first then return (.ok 0, out)
  else if b.tupleCount ≤ last then return (.error (.tupleOutOfRange last b.tupleCount), out)
  else if out.length < required then return (.error (.outputTooSmall required out.length), out)
  else
    let values ← readSlots objects (slotsOf b first copied)
    return (.ok copied, overwrite values out)

def toList (objects : List ο) : Act (Session ο α) ε (List α) := do
  let b := (← get).buffer
  readSlots objects (List.range b.size)

def appendWidened [Scalar α] (objects : List ο) (out : List Float) :
    Act (Session ο α) ε (List Float) := do
  return out ++ (← toList objects).map Scalar.widen

def project [Scalar α] (objects : List ο) (start stop : Nat) :
    Act (Session ο α) ProjectionError (List α) := do
  refresh objects start stop
  view objects
  toList objects

end InSitu.Session
