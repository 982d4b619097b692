import InSitu.Json.Record
import InSitu.Json.Printer
import InSitu.Json.Reader
namespace InSitu

structure PieceColumn where
  name : String
  components : Nat
  scalarType : String
  values : List Float

structure Piece where
  grid : String
  step : Nat
  time : Float
  worker : Nat
  start : Nat
  stop : Nat
  columns : List PieceColumn

namespace PieceColumn

def toJson (c : PieceColumn) : Json :=
  .ofFields [("name", some (.text c.name)), ("components", some (.ofNat c.components)),
    ("scalar_type", some (.text c.scalarType)), ("values", some (.array (c.values.map .ofFloat)))]

def ofJson? (value : Json) : Option PieceColumn := do
  match ← value.fields? ["name", "components", "scalar_type", "values"] with
  | [name, components, scalarType, values] => return {
      name := ← Json.content? name
      components := ← Json.natBelow? (Nat.pow 2 64) components
      scalarType := ← Json.content? scalarType
      values := ← Json.items? Json.double? values }
  | _ => none

end PieceColumn

namespace Piece

def toJson (p : Piece) : Json :=
  .ofFields [("grid", some (.text p.grid)), ("step", some (.ofNat p.step)),
    ("time", some (.ofFloat p.time)), ("worker", some (.ofNat p.worker)),
    ("start", some (.ofNat p.start)), ("end", some (.ofNat p.stop)),
    ("columns", some (.array (p.columns.map PieceColumn.toJson)))]

def ofJson? (value : Json) : Option Piece := do
  match ← value.fields? ["grid", "step", "time", "worker", "start", "end", "columns"] with
  | [grid, step, time, worker, start, stop, columns] => return {
      grid := ← Json.content? grid
      step := ← Json.natBelow? (Nat.pow 2 64) step
      time := ← Json.double? time
      worker := ← Json.natBelow? (Nat.pow 2 32) worker
      start := ← Json.natBelow? (Nat.pow 2 64) start
      stop := ← Json.natBelow? (Nat.pow 2 64) stop
      columns := ← Json.items? (·.bind PieceColumn.ofJson?) columns }
  | _ => none

def text (p : Piece) : String := p.toJson.compact

def read? (content : String) : Option Piece := (Json.read? content).bind ofJson?

def fileName (grid : String) (step worker : Nat) : String := s!"{grid}-{step}_{worker}.json"

end Piece
end InSitu
