import InSitu.Files.Path
import InSitu.Projection.Buffer
import InSitu.Decimal.Layout
namespace InSitu

structure StateCommand where
  program : Path
  args : List String
  deriving DecidableEq, Repr

def StateCommand.commandLine (c : StateCommand) (sidecar : Path) : String :=
  " ".intercalate (c.program.display :: c.args ++ [sidecar.display])

structure Config where
  simulation : String := "simulation"
  outputDir : Path := .ofString "output"
  interval : Nat := 1
  timeStep : Float := 0.01
  -- None leaves the count to the machine.
  workers : Option Nat := none
  mode : Mode := .zeroCopy
  exportFiles : Bool := true
  generateState : Bool := false
  stateCommand : Option StateCommand := none

inductive ConfigError where
  | emptySimulationName
  | emptyOutputDir
  | zeroInterval
  | invalidTimeStep (value : Float)
  | missingStateCommand
  | stateWithoutExport

def ConfigError.kind : ConfigError → String
  | .emptySimulationName => "EmptySimulationName"
  | .emptyOutputDir => "EmptyOutputDir"
  | .zeroInterval => "ZeroInterval"
  | .invalidTimeStep .. => "InvalidTimeStep"
  | .missingStateCommand => "MissingStateCommand"
  | .stateWithoutExport => "StateWithoutExport"

def ConfigError.message : ConfigError → String
  | .emptySimulationName => "simulation_name must not be empty"
  | .emptyOutputDir => "output_dir must not be empty"
  | .zeroInterval => "export_interval must be at least 1"
  | .invalidTimeStep value =>
    s!"time_step must be finite and positive, got {Decimal.text value}"
  | .missingStateCommand => "generate_state requires a state_command with a program"
  | .stateWithoutExport => "generate_state requires export_files"

namespace Config

def hasProgram (c : Config) : Bool := c.stateCommand.any fun command => ! command.program.isEmpty

def validate (c : Config) : Except ConfigError Unit :=
  if c.simulation.isEmpty then .error .emptySimulationName
  else if c.outputDir.isEmpty then .error .emptyOutputDir
  else if c.interval = 0 then .error .zeroInterval
  else if ! c.timeStep.isFinite || c.timeStep ≤ 0 then .error (.invalidTimeStep c.timeStep)
  else if c.generateState && ! c.exportFiles then .error .stateWithoutExport
  else if c.generateState && ! c.hasProgram then .error .missingStateCommand
  else .ok ()

def workerCount (c : Config) (available : Nat) : Nat :=
  max 1 (min (c.workers.getD available) 64)

-- Aborted where the interval is zero.
def isExportStep (c : Config) (step : Nat) : Outcome ε Bool :=
  if c.interval = 0 then .error (.abort none) else .ok (step % c.interval = 0)

def timeAt (c : Config) (step : Nat) : Float := c.timeStep * .ofNat step

end Config
end InSitu
