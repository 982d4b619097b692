import InSitu.Decimal.Layout
namespace InSitu

inductive Level where
  | info | warn | error
  deriving DecidableEq, Repr

def Level.text : Level → String
  | .info => "INFO"
  | .warn => "WARN"
  | .error => "ERROR"

inductive Notice where
  | readOnlyContainer (projection operation : String)
  | adaptorReady (simulation outputDir : String) (workers interval : Nat)
  | exportFailed (grid : String) (step : Nat)
  | frameExported (step : Nat) (time : Float) (tuples pieces : Nat)
  | infoNotWritten
  | exportFinished (steps : Nat) (sidecar : String)
  | adaptorDropped (steps : Nat)
  | generatingState (command : String)
  | generatorNotStarted (command : String)
  | generatorFailed (command status : String)
  | processorShutDown
  | processorReleased

inductive NoticeField where
  | text (content : String)
  | count (n : Nat)
  | real (x : Float)

namespace Notice

def level : Notice → Level
  | .readOnlyContainer .. | .adaptorDropped .. => .warn
  | .exportFailed .. | .infoNotWritten | .generatorNotStarted .. | .generatorFailed .. => .error
  | .adaptorReady .. | .frameExported .. | .exportFinished .. | .generatingState .. => .info
  | .processorShutDown | .processorReleased => .info

def message : Notice → String
  | .readOnlyContainer .. => "read only container"
  | .adaptorReady .. => "visualization adaptor ready"
  | .exportFailed .. => "export failed"
  | .frameExported .. => "exported frame"
  | .infoNotWritten => "writing simulation info failed"
  | .exportFinished .. => "export finished"
  | .adaptorDropped .. =>
    "visualization adaptor dropped without finish; no simulation info written"
  | .generatingState .. => "generating viewer state"
  | .generatorNotStarted .. => "state generator could not be started"
  | .generatorFailed .. => "state generator failed"
  | .processorShutDown => "in-situ processor shut down"
  | .processorReleased => "in-situ processor finalized on last handle drop"

def fields : Notice → List (String × NoticeField)
  | .readOnlyContainer projection operation =>
    [("projection", .text projection), ("operation", .text operation)]
  | .adaptorReady simulation outputDir workers interval =>
    [("simulation", .text simulation), ("output_dir", .text outputDir), ("workers", .count workers),
      ("interval", .count interval)]
  | .exportFailed grid step => [("grid", .text grid), ("step", .count step)]
  | .frameExported step time tuples pieces =>
    [("step", .count step), ("time", .real time), ("tuples", .count tuples),
      ("pieces", .count pieces)]
  | .exportFinished steps sidecar => [("steps", .count steps), ("sidecar", .text sidecar)]
  | .adaptorDropped steps => [("steps", .count steps)]
  | .generatingState command | .generatorNotStarted command => [("command", .text command)]
  | .generatorFailed command status => [("command", .text command), ("status", .text status)]
  | .infoNotWritten | .processorShutDown | .processorReleased => []

end Notice
end InSitu
