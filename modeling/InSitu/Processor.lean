import InSitu.Grid
import InSitu.Notice
namespace InSitu

structure Frame where
  step : Nat
  time : Float
  metadata : String
  grids : List FrameGrid

-- A consumer acts on what is outside, `ω`. It may refuse a frame or abort on it; neither ends it.
structure Processor (ω : Type) where
  coProcess : Frame → ω → Outcome ExportError Unit × ω
  finalize : ω → ω

structure Shared (ω : Type) where
  processor : Option (Processor ω)
  handles : Nat
  -- Read without a look at the consumer.
  active : Bool

structure Hub (ω : Type) where
  shared : List (Shared ω)
  outside : ω
  notices : List Notice

abbrev ProcessorId := Nat

namespace Hub

def initial (outside : ω) : Hub ω := ⟨[], outside, []⟩

def note (hub : Hub ω) (notice : Notice) : Hub ω := {hub with notices := hub.notices ++ [notice]}

def share (processor : Processor ω) (hub : Hub ω) : ProcessorId × Hub ω :=
  (hub.shared.length, {hub with shared := hub.shared ++ [⟨some processor, 1, true⟩]})

def processor? (hub : Hub ω) (id : ProcessorId) : Option (Processor ω) :=
  hub.shared[id]?.bind (·.processor)

def isActive (hub : Hub ω) (id : ProcessorId) : Bool := (hub.shared[id]?.map (·.active)).getD false

def handleCount (hub : Hub ω) (id : ProcessorId) : Nat := (hub.shared[id]?.map (·.handles)).getD 0

def describe (hub : Hub ω) (id : ProcessorId) : String :=
  s!"ProcessorHandle \x7b active: {hub.isActive id}, handles: {hub.handleCount id} \x7d"

def finalize (id : ProcessorId) (hub : Hub ω) : Bool × Hub ω :=
  let closed : Hub ω := { hub with
    shared := hub.shared.modify id fun s => {s with processor := none, active := false} }
  match hub.processor? id with
  | none => (false, closed)
  | some processor => (true, {closed with outside := processor.finalize hub.outside})

def shutdown (id : ProcessorId) (hub : Hub ω) : Bool × Hub ω :=
  match hub.finalize id with
  | (true, reached) => (true, reached.note .processorShutDown)
  | (false, reached) => (false, reached)

def clone (id : ProcessorId) (hub : Hub ω) : Hub ω :=
  {hub with shared := hub.shared.modify id fun s => {s with handles := s.handles + 1}}

def release (id : ProcessorId) (hub : Hub ω) : Hub ω :=
  let released : Hub ω :=
    {hub with shared := hub.shared.modify id fun s => {s with handles := s.handles - 1}}
  if released.handleCount id = 0 then
    match released.finalize id with
    | (true, reached) => reached.note .processorReleased
    | (false, reached) => reached
  else released

def coProcess (id : ProcessorId) (frame : Frame) : Act (Hub ω) ExportError Unit := fun hub =>
  match hub.processor? id with
  | none => (.error (.error .processorShutDown), hub)
  | some processor =>
    let (outcome, outside) := processor.coProcess frame hub.outside
    (outcome, {hub with outside})

end Hub
end InSitu
