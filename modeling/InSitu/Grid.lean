import InSitu.Attribute
import InSitu.AttributeSet
import InSitu.Column
import InSitu.Partition
import InSitu.PieceFiles
namespace InSitu

structure Worker (ο : Type) where
  columns : List (Column ο)
  start : Nat
  stop : Nat

structure Grid (ο : Type) where
  name : String
  mode : Mode
  attributes : List Attribute
  scalarTypes : List ScalarType
  workers : List (Worker ο)
  selection : Option AttributeSet
  selected : List Bool
  -- Objects covered by the last update that succeeded.
  tuples : Nat

structure FrameGrid where
  name : String
  tuples : Nat
  columns : List PieceColumn

namespace Worker

def initial : Worker ο := ⟨[], 0, 0⟩

-- Every column is refreshed, selected or not. The worker keeps its old range if one of them fails.
def refresh (objects : List ο) (start stop : Nat) (w : Worker ο) :
    Outcome ProjectionError Unit × Worker ο :=
  match sweep (Column.refresh objects start stop) w.columns with
  | (.ok _, columns) => (.ok (), ⟨columns, start, stop⟩)
  | (.error failure, columns) => (.error failure, {w with columns})

def collectColumn (objects : List ο) (entry : Column ο × Bool) :
    Outcome ε (Option PieceColumn) × (Column ο × Bool) :=
  let (column, on) := entry
  if on then
    let (outcome, reached) := column.append objects []
    (outcome.map fun values =>
      some ⟨column.name, column.components, column.type.name, values⟩, (reached, on))
  else (.ok none, entry)

def collect (objects : List ο) (selected : List Bool) (w : Worker ο) :
    Outcome ε (List PieceColumn) × Worker ο :=
  let (outcome, reached) := sweep (collectColumn objects) (w.columns.zip selected)
  (outcome.map (·.filterMap id),
    {w with columns := reached.map (·.1) ++ w.columns.drop reached.length})

end Worker

namespace Grid

def initial (name : String) (workers : Nat) (mode : Mode) : Grid ο :=
  { name, mode
    attributes := [], scalarTypes := []
    workers := List.replicate (max workers 1) .initial
    selection := none, selected := [], tuples := 0 }

def attribute? (g : Grid ο) (id : Nat) : Option Attribute := g.attributes[id]?

def attributeId? (g : Grid ο) (name : String) : Option Nat :=
  g.attributes.findIdx? (·.name = name)

def isSelected (selection : Option AttributeSet) (id : Nat) : Bool :=
  selection.all (·.contains id)

def reselected (g : Grid ο) : Grid ο :=
  {g with selected := (List.range g.attributes.length).map (isSelected g.selection)}

def enlist (column : Column ο) : List (Worker ο) → List (Worker ο)
  | [] => []
  | first :: others => {first with columns := first.columns ++ [column]} ::
      others.map fun w => {w with columns := w.columns ++ [column.fork]}

def addColumn (attr : Attribute) (column : Column ο) (g : Grid ο) :
    Except ExportError (Nat × Grid ο) :=
  if g.attributes.any (·.name = attr.name) then
    .error (.duplicateColumn g.name attr.name)
  else if column.components ≠ attr.kind.components then
    .error (.projection (.componentMismatch attr.kind.components column.components))
  else
    let next : Grid ο := { g with
      attributes := g.attributes ++ [attr]
      scalarTypes := g.scalarTypes ++ [column.type]
      workers := enlist column g.workers }
    .ok (g.attributes.length, next.reselected)

def addAttribute (attr : Attribute) (type : ScalarType) (accessor : Accessor ο type.Carrier)
    (g : Grid ο) : Except ExportError (Nat × Grid ο) :=
  match Buffer.new? attr.name g.mode accessor with
  | .error cause => .error (.projection cause)
  | .ok buffer => g.addColumn attr ⟨type, buffer⟩

def unknown? (set : AttributeSet) (columns : Nat) : Option Nat :=
  (set.difference (.first columns)).cursor.next.1

def select (selection : Option AttributeSet) (g : Grid ο) : Except ExportError (Grid ο) :=
  match selection.bind (unknown? · g.attributes.length) with
  | some id => .error (.unknownAttribute g.name id)
  | none => .ok {g with selection}.reselected

def forked (run : α → Worker ο → Outcome ε β × Worker ο) (shares : List α)
    (workers : List (Worker ο)) : List (Outcome ε β) × List (Worker ο) :=
  ((workers.zip shares).map fun (w, share) => run share w).unzip

def refreshWorker (objects : List ο) (share : Range) (w : Worker ο) :
    Outcome ExportError Unit × Worker ο :=
  let (outcome, reached) := w.refresh objects share.start share.stop
  (Outcome.mapCause .projection outcome, reached)

-- A single worker runs within the call, so that an abort of its own is an abort of the call.
def refreshAll (objects : List ο) (g : Grid ο) : Outcome ExportError Unit × List (Worker ο) :=
  match g.workers with
  | [worker] =>
    let (outcome, reached) := refreshWorker objects ⟨0, objects.length⟩ worker
    (outcome, [reached])
  | workers =>
    match Partition.new? objects.length workers.length with
    | .error cause => (.error (.error (.projection cause)), workers)
    | .ok plan =>
      let (outcomes, reached) := forked (refreshWorker objects) (plan.ranges.map (·.2)) workers
      ((joinAll (.workerAborted g.name) outcomes).map fun _ => (), reached)

def update (objects : List ο) (g : Grid ο) : Outcome ExportError Nat × Grid ο :=
  match g.refreshAll objects with
  | (.ok _, workers) => (.ok objects.length, {g with workers, tuples := objects.length})
  | (.error failure, workers) => (.error failure, {g with workers})

def workerPiece (g : Grid ο) (objects : List ο) (step : Nat) (time : Float) (number : Nat)
    (w : Worker ο) : Outcome ε Piece × Worker ο :=
  let (outcome, reached) := w.collect objects g.selected
  (outcome.map fun columns => ⟨g.name, step, time, number, w.start, w.stop, columns⟩, reached)

def piece (objects : List ο) (step : Nat) (time : Float) (number : Nat) (g : Grid ο) :
    Outcome ε Piece × Grid ο :=
  match g.workers[number]? with
  | none => (.error (.abort none), g)
  | some worker =>
    let (outcome, reached) := g.workerPiece objects step time number worker
    (outcome, {g with workers := g.workers.set number reached})

def extended (columns part : List PieceColumn) : List PieceColumn :=
  if columns.isEmpty then part
  else (columns.zip part).map (fun (all, more) => {all with values := all.values ++ more.values}) ++
    columns.drop part.length

def frame (objects : List ο) (g : Grid ο) : Outcome ε FrameGrid × Grid ο :=
  let (outcome, workers) := sweep (Worker.collect objects g.selected) g.workers
  (outcome.map fun parts => ⟨g.name, g.tuples, parts.foldl extended []⟩, {g with workers})

-- A worker writes its piece as soon as it is built. An aborted one has written nothing.
def writeWorker (directory : Path) (built : Outcome ExportError Piece) (files : Files) :
    Outcome ExportError Path × Files :=
  match built with
  | .error failure => (.error failure, files)
  | .ok piece => piece.write directory files

def writeBuilt (directory : Path) :
    List (Outcome ExportError Piece) → Files → List (Outcome ExportError Path) × Files
  | [], files => ([], files)
  | built :: rest, files =>
    let (outcome, written) := writeWorker directory built files
    let (outcomes, reached) := writeBuilt directory rest written
    (outcome :: outcomes, reached)

-- One piece for each worker and then the index, which is not touched if a worker fails. Workers
-- write different files; they are taken in their order here.
def writePieces (objects : List ο) (directory : Path) (step : Nat) (time : Float) (g : Grid ο)
    (files : Files) : Outcome ExportError Nat × Grid ο × Files :=
  let (built, workers) :=
    forked (g.workerPiece objects step time) (List.range g.workers.length) g.workers
  let (outcomes, written) := writeBuilt directory built files
  let reached := {g with workers}
  match joinAll (.workerAborted g.name) outcomes with
  | .error failure => (.error failure, reached, written)
  | .ok _ =>
    match PieceIndex.write directory g.name step time g.workers.length written with
    | (.error failure, indexed) => (.error failure, reached, indexed)
    | (.ok _, indexed) => (.ok g.workers.length, reached, indexed)

def attributeInfo (attr : Attribute) (type : ScalarType) : AttributeInfo :=
  ⟨attr.name, attr.kind.components, type.name, attr.kind.label, attr.units⟩

def info (g : Grid ο) : GridInfo :=
  let columns := (g.attributes.zip g.scalarTypes).zip g.selected
  { name := g.name
    pieces := g.workers.length
    attributes := columns.filterMap fun ((attr, type), on) =>
      if on then some (attributeInfo attr type) else none }

end Grid
end InSitu
