import InSitu.Processor
namespace InSitu

inductive Recorded where
  | frame (label : String) (frame : Frame)
  | finalized (label : String)

structure Recorder where
  label : String
  refusals : List (Nat × String)
  aborts : List Nat

def Recorder.verdict (r : Recorder) (step : Nat) : Outcome ExportError Unit :=
  if r.aborts.contains step then .error (.abort none)
  else match r.refusals.find? (·.1 = step) with
    | some (_, reason) => .error (.error (.processor reason))
    | none => .ok ()

def Recorder.processor (r : Recorder) : Processor (List Recorded) where
  coProcess frame events := (r.verdict frame.step, events ++ [.frame r.label frame])
  finalize events := events ++ [.finalized r.label]

end InSitu
