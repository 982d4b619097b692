import InSitu.Processor
namespace InSitu

inductive Launch where
  | succeeded
  | failed (status : String)
  | notStarted (reason : String)

abbrev Launcher := StateCommand → Path → Files → Launch

structure Host (ω : Type) where
  files : Files
  hub : Hub ω

namespace Host

def initial (outside : ω) : Host ω := ⟨.initial, .initial outside⟩

def note (host : Host ω) (notice : Notice) : Host ω := {host with hub := host.hub.note notice}

end Host

structure Adaptor (ο : Type) where
  config : Config
  workers : Nat
  grids : List (Grid ο)
  processor : Option ProcessorId
  steps : List Nat

structure Metrics where
  step : Nat
  time : Float
  tuples : Nat
  pieces : Nat

-- Objects of each grid. A grid that has none here is exported empty.
abbrev Source (ο : Type) := String → Option (List ο)

namespace Adaptor

def onFiles (x : FileAct α) : Act (Host ω) ExportError α :=
  Act.within Host.files (fun files host => {host with files}) x

def new (config : Config) (available : Nat) : Act (Host ω) ExportError (Adaptor ο) := do
  match config.validate with
  | .error cause => Act.refuse (.config cause)
  | .ok () =>
    if config.exportFiles then onFiles (makeDirectory config.outputDir)
    let workers := config.workerCount available
    modify (·.note
      (.adaptorReady config.simulation config.outputDir.display workers config.interval))
    return ⟨config, workers, [], none, []⟩

def releaseProcessor (a : Adaptor ο) (host : Host ω) : Host ω :=
  match a.processor with
  | none => host
  | some id => {host with hub := host.hub.release id}

def attach (id : ProcessorId) (a : Adaptor ο) (host : Host ω) : Adaptor ο × Host ω :=
  ({a with processor := some id}, a.releaseProcessor host)

def grid? (a : Adaptor ο) (name : String) : Option (Grid ο) := a.grids.find? (·.name = name)

def addGrid (name : String) (a : Adaptor ο) : Except ExportError (Adaptor ο) :=
  if a.grids.any (·.name = name) then .error (.duplicateGrid name)
  else .ok {a with grids := a.grids ++ [.initial name a.workers a.config.mode]}

def setGrid (grid : Grid ο) (a : Adaptor ο) : Adaptor ο :=
  {a with grids := a.grids.map fun g => if g.name = grid.name then grid else g}

def info (a : Adaptor ο) : SimulationInfo :=
  { simulation := a.config.simulation
    outputDir := a.config.outputDir
    interval := a.config.interval
    timeStep := a.config.timeStep
    workers := a.workers
    grids := a.grids.map Grid.info
    steps := a.steps }

abbrev Run (ο ω : Type) := Act (Adaptor ο × Host ω) ExportError

def objectsOf (source : Source ο) (g : Grid ο) : List ο := (source g.name).getD []

def onGrids (visit : Grid ο → Outcome ExportError α × Grid ο) : Run ο ω (List α) := fun (a, host) =>
  let (outcome, grids) := sweep visit a.grids
  (outcome, ({a with grids}, host))

def onHost (x : Act (Host ω) ExportError α) : Run ο ω α :=
  Act.within Prod.snd (fun host (a, _) => (a, host)) x

def refreshGrids (source : Source ο) : Run ο ω Nat := do
  return (← onGrids fun g => g.update (objectsOf source g)).foldr (· + ·) 0

-- The information that goes with a frame already lists its step.
def metadata (a : Adaptor ο) (step : Nat) : Except ExportError String :=
  match {a.info with steps := a.steps ++ [step]}.text? with
  | none => .error (.json (.ofString "<frame metadata>"))
  | some text => .ok text

def handOver (source : Source ο) (step : Nat) (time : Float) (id : ProcessorId) : Run ο ω Unit := do
  match (← get).1.metadata step with
  | .error cause => Act.refuse cause
  | .ok text =>
    let grids ← onGrids fun g => g.frame (objectsOf source g)
    onHost (Act.within Host.hub (fun hub host => {host with hub})
      (Hub.coProcess id ⟨step, time, text, grids⟩))

-- A failure is noted with its grid; an abort is not.
def writeGrid (source : Source ο) (directory : Path) (step : Nat) (time : Float) (host : Host ω)
    (g : Grid ο) : Outcome ExportError Nat × Grid ο × Host ω :=
  match g.writePieces (objectsOf source g) directory step time host.files with
  | (.error (.error cause), reached, files) =>
    (.error (.error cause), reached, {host with files}.note (.exportFailed g.name step))
  | (outcome, reached, files) => (outcome, reached, {host with files})

def writeFrom (source : Source ο) (directory : Path) (step : Nat) (time : Float) :
    List (Grid ο) → Host ω → Outcome ExportError Nat × List (Grid ο) × Host ω
  | [], host => (.ok 0, [], host)
  | g :: rest, host =>
    match writeGrid source directory step time host g with
    | (.error failure, reached, host) => (.error failure, reached :: rest, host)
    | (.ok pieces, reached, host) =>
      let (outcome, others, host) := writeFrom source directory step time rest host
      (outcome.map (pieces + ·), reached :: others, host)

def writeGrids (source : Source ο) (step : Nat) (time : Float) : Run ο ω Nat := fun (a, host) =>
  let (outcome, grids, reached) := writeFrom source a.config.outputDir step time a.grids host
  (outcome, ({a with grids}, reached))

-- Steps off the interval are passed over. On the interval: refresh every grid, hand the frame over,
-- write the pieces, and only then enter the step.
def visualize (source : Source ο) (step : Nat) : Run ο ω (Option Metrics) := do
  let config := (← get).1.config
  if ← Act.answer (config.isExportStep step) then
    let time := config.timeAt step
    let tuples ← refreshGrids source
    match (← get).1.processor with
    | some id => handOver source step time id
    | none => pure ()
    let pieces ← if config.exportFiles then writeGrids source step time else pure 0
    modify fun (a, host) =>
      ({a with steps := a.steps ++ [step]}, host.note (.frameExported step time tuples pieces))
    return some ⟨step, time, tuples, pieces⟩
  else return none

end Adaptor

namespace StateCommand

def run (launch : Launcher) (c : StateCommand) (sidecar : Path) :
    Act (Host ω) ExportError Unit := do
  let command := c.commandLine sidecar
  modify (·.note (.generatingState command))
  match launch c sidecar (← get).files with
  | .succeeded => pure ()
  | .notStarted reason =>
    modify (·.note (.generatorNotStarted command))
    Act.refuse (.stateGenerationFailed command reason)
  | .failed status =>
    modify (·.note (.generatorFailed command status))
    Act.refuse (.stateGenerationFailed command status)

end StateCommand

namespace Adaptor

def writeInfo (a : Adaptor ο) : Act (Host ω) ExportError Path := fun host =>
  match onFiles (a.info.write a.config.outputDir) host with
  | (.error (.error cause), reached) => (.error (.error cause), reached.note .infoNotWritten)
  | other => other

-- The end of a run. The handle is released first, whatever becomes of the rest. The path of the
-- sidecar, if there is one.
def finish (launch : Launcher) (a : Adaptor ο) : Act (Host ω) ExportError (Option Path) := do
  modify a.releaseProcessor
  if a.config.exportFiles then
    let sidecar ← a.writeInfo
    match a.config.stateCommand with
    | some command => if a.config.generateState then command.run launch sidecar
    | none => pure ()
    modify (·.note (.exportFinished a.steps.length sidecar.display))
    return some sidecar
  else return none

def drop (a : Adaptor ο) (host : Host ω) : Host ω :=
  a.releaseProcessor
    (if a.steps.isEmpty then host else host.note (.adaptorDropped a.steps.length))

end Adaptor
end InSitu
