import InSitu.Attribute
import InSitu.Files.Path
import InSitu.Json.Record
import InSitu.Json.Printer
import InSitu.Json.Reader
namespace InSitu

structure AttributeInfo where
  name : String
  components : Nat
  scalarType : String
  kind : String
  units : Option String
  deriving DecidableEq, Repr

structure GridInfo where
  name : String
  pieces : Nat
  attributes : List AttributeInfo
  deriving DecidableEq, Repr

structure SimulationInfo where
  simulation : String
  outputDir : Path
  interval : Nat
  timeStep : Float
  workers : Nat
  grids : List GridInfo
  steps : List Nat

namespace AttributeInfo

def toJson (a : AttributeInfo) : Json :=
  .ofFields [("name", some (.text a.name)), ("components", some (.ofNat a.components)),
    ("scalar_type", some (.text a.scalarType)), ("kind", some (.text a.kind)),
    ("units", a.units.map .text)]

def ofJson? (value : Json) : Option AttributeInfo := do
  match ← value.fields? ["name", "components", "scalar_type", "kind", "units"] with
  | [name, components, scalarType, kind, units] => return {
      name := ← Json.content? name
      components := ← Json.natBelow? (Nat.pow 2 64) components
      scalarType := ← Json.content? scalarType
      kind := ← Json.content? kind
      units := ← Json.optional? units }
  | _ => none

end AttributeInfo

namespace GridInfo

def toJson (g : GridInfo) : Json :=
  .ofFields [("name", some (.text g.name)), ("pieces", some (.ofNat g.pieces)),
    ("attributes", some (.array (g.attributes.map AttributeInfo.toJson)))]

def ofJson? (value : Json) : Option GridInfo := do
  match ← value.fields? ["name", "pieces", "attributes"] with
  | [name, pieces, attributes] => return {
      name := ← Json.content? name
      pieces := ← Json.natBelow? (Nat.pow 2 64) pieces
      attributes := ← Json.items? (·.bind AttributeInfo.ofJson?) attributes }
  | _ => none

end GridInfo

namespace SimulationInfo

def fileName : String := "simulation_info.json"

def toJson? (info : SimulationInfo) : Option Json := do
  let outputDir ← info.outputDir.text?
  return .ofFields [("simulation", some (.text info.simulation)),
    ("output_dir", some (.text outputDir)), ("export_interval", some (.ofNat info.interval)),
    ("time_step", some (.ofFloat info.timeStep)), ("workers", some (.ofNat info.workers)),
    ("grids", some (.array (info.grids.map GridInfo.toJson))),
    ("steps", some (.array (info.steps.map .ofNat)))]

def ofJson? (value : Json) : Option SimulationInfo := do
  match ← value.fields? ["simulation", "output_dir", "export_interval", "time_step", "workers",
      "grids", "steps"] with
  | [simulation, outputDir, interval, timeStep, workers, grids, steps] => return {
      simulation := ← Json.content? simulation
      outputDir := .ofString (← Json.content? outputDir)
      interval := ← Json.natBelow? (Nat.pow 2 64) interval
      timeStep := ← Json.double? timeStep
      workers := ← Json.natBelow? (Nat.pow 2 64) workers
      grids := ← Json.items? (·.bind GridInfo.ofJson?) grids
      steps := ← Json.items? (Json.natBelow? (Nat.pow 2 64)) steps }
  | _ => none

def text? (info : SimulationInfo) : Option String := info.toJson?.map Json.compact

def sidecarText? (info : SimulationInfo) : Option String := info.toJson?.map Json.indented

-- Time steps are compared as numbers, so information with a NaN is not the same as itself.
def same (info other : SimulationInfo) : Bool :=
  info.simulation = other.simulation && info.outputDir = other.outputDir &&
  info.interval = other.interval && info.timeStep == other.timeStep &&
  info.workers = other.workers && info.grids = other.grids && info.steps = other.steps

def read? (content : String) : Option SimulationInfo := (Json.read? content).bind ofJson?

end SimulationInfo
end InSitu
