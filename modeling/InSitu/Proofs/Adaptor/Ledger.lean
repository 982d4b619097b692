import InSitu.Proofs.Adaptor.Run
namespace InSitu

namespace Grid

theorem staff_info (g : Grid ο) {workers : List (Worker ο)}
    (staff : workers.length = g.workers.length) (tuples : Nat) :
    {g with workers, tuples}.info = g.info := by
  simp only [info, staff]

theorem collected_info (objects : List ο) (g : Grid ο) : (g.collected objects).info = g.info :=
  g.staff_info (List.length_map _) g.tuples

end Grid

def Hub.reach (hub : Hub ω) : List (Shared ω) × ω := (hub.shared, hub.outside)

namespace Adaptor

-- All that a call may change of an adaptor before its last act is what the grids show.
structure Stays (a later : Adaptor ο) : Prop where
  alike : later = {a with grids := later.grids}
  infos : later.grids.map Grid.info = a.grids.map Grid.info

namespace Stays

theorem same : Stays a a := ⟨rfl, rfl⟩

theorem trans (before : Stays a between) (after : Stays between last) : Stays a last := by
  refine ⟨?_, after.infos.trans before.infos⟩
  rw [after.alike, before.alike]

theorem config_eq (stays : Stays a later) : later.config = a.config := by
  rw [stays.alike]

theorem processor_eq (stays : Stays a later) : later.processor = a.processor := by
  rw [stays.alike]

theorem info (stays : Stays a later) : later.info = a.info := by
  rw [Adaptor.info, stays.infos, stays.alike]
  rfl

end Stays

structure Hands (step : Nat) (a : Adaptor ο) (id : ProcessorId) (frame : Frame) : Prop where
  attached : a.processor = some id
  step_eq : frame.step = step
  time_eq : frame.time = a.config.timeAt step
  metadata : {a.info with steps := a.info.steps ++ [step]}.text? = some frame.metadata

def HandedOver (step : Nat) (a : Adaptor ο) (hub later : Hub ω) : Prop :=
  later.reach = hub.reach ∨ ∃ id frame, Hands step a id frame ∧
    later.reach = (Hub.coProcess id frame hub).2.reach

theorem HandedOver.onward (handed : HandedOver step a hub later) (same : last.reach = later.reach) :
    HandedOver step a hub last := by
  rw [HandedOver, same]
  exact handed

structure Prepares (step : Nat) (s next : Adaptor ο × Host ω) : Prop where
  stays : Stays s.1 next.1
  files : next.2.files = s.2.files
  handed : HandedOver step s.1 s.2.hub next.2.hub

theorem Prepares.refreshed {s between next : Adaptor ο × Host ω} (stays : Stays s.1 between.1)
    (host : between.2 = s.2) (prepares : Prepares step between next) : Prepares step s next := by
  obtain ⟨after, files, handed⟩ := prepares
  rw [host] at files handed
  refine ⟨stays.trans after, files, handed.imp_right ?_⟩
  rintro ⟨id, frame, hands, reached⟩
  exact ⟨id, frame, ⟨stays.processor_eq.symm.trans hands.attached, hands.step_eq,
    stays.config_eq ▸ hands.time_eq, stays.info ▸ hands.metadata⟩, reached⟩

-- Writing as it may go with files that fail at any grid and for any cause.
inductive Writes (source : Source ο) (step : Nat) : List (Grid ο) → Host ω →
    Outcome ExportError Nat × List (Grid ο) × Host ω → Prop where
  | none : Writes source step [] host (.ok 0, [], host)
  | refused (cause : ExportError) (files : Files) :
      Writes source step (g :: rest) host (.error (.error cause),
        g.collected (objectsOf source g) :: rest,
        {host with files}.note (.exportFailed g.name step))
  | aborted (note : Option String) (files : Files) :
      Writes source step (g :: rest) host (.error (.abort note),
        g.collected (objectsOf source g) :: rest, {host with files})
  | written (pieces : Nat) (files : Files)
      (others : Writes source step rest {host with files} (outcome, later, last)) :
      Writes source step (g :: rest) host (outcome.map (pieces + ·),
        g.collected (objectsOf source g) :: later, last)

inductive Attempts (source : Source ο) (step : Nat) (s : Adaptor ο × Host ω) :
    Outcome ExportError (Option Metrics) × (Adaptor ο × Host ω) → Prop where
  | undecided (asked : s.1.config.isExportStep step = .error fault) :
      Attempts source step s (.error fault, s)
  | passed (asked : s.1.config.isExportStep (ε := ExportError) step = .ok false) :
      Attempts source step s (.ok none, s)
  | unprepared (asked : s.1.config.isExportStep (ε := ExportError) step = .ok true)
      (prepared : prepare source step (s.1.config.timeAt step) s = (.error fault, reached)) :
      Attempts source step s (.error fault, reached)
  | unwritten (asked : s.1.config.isExportStep (ε := ExportError) step = .ok true)
      (prepared : prepare source step (s.1.config.timeAt step) s = (.ok tuples, reached))
      (off : s.1.config.exportFiles = false) :
      Attempts source step s (.ok (some ⟨step, s.1.config.timeAt step, tuples, 0⟩),
        enter step (s.1.config.timeAt step) tuples 0 reached)
  | interrupted (asked : s.1.config.isExportStep (ε := ExportError) step = .ok true)
      (prepared : prepare source step (s.1.config.timeAt step) s = (.ok tuples, reached))
      (on : s.1.config.exportFiles = true)
      (writes : Writes source step reached.1.grids reached.2 (.error fault, later, host)) :
      Attempts source step s (.error fault, ({reached.1 with grids := later}, host))
  | exported (asked : s.1.config.isExportStep (ε := ExportError) step = .ok true)
      (prepared : prepare source step (s.1.config.timeAt step) s = (.ok tuples, reached))
      (on : s.1.config.exportFiles = true)
      (writes : Writes source step reached.1.grids reached.2 (.ok pieces, later, host)) :
      Attempts source step s (.ok (some ⟨step, s.1.config.timeAt step, tuples, pieces⟩),
        enter step (s.1.config.timeAt step) tuples pieces ({reached.1 with grids := later}, host))

theorem writes_keep {grids : List (Grid ο)} {host : Host ω}
    {result : Outcome ExportError Nat × List (Grid ο) × Host ω}
    (writes : Writes source step grids host result) :
    result.2.1.map Grid.info = grids.map Grid.info ∧
      result.2.2.hub.reach = host.hub.reach := by
  induction writes with
  | none => exact ⟨rfl, rfl⟩
  | refused | aborted => exact ⟨congrArg (· :: _) (Grid.collected_info _ _), rfl⟩
  | written pieces files others ih =>
    exact ⟨List.cons_eq_cons.mpr ⟨Grid.collected_info _ _, ih.1⟩, ih.2⟩

-- A run with the steps that were called for and what came of them. Between two calls grids may be added
-- and used, the handle may be exchanged, and others may do to the host what they like.
inductive Runs (config : Config) :
    List (Nat × Outcome ExportError (Option Metrics)) → Adaptor ο × Host ω → Prop where
  | opened (some : config.interval ≠ 0) (available : Nat) (host : Host ω) :
      Runs config [] (⟨config, config.workerCount available, [], none, []⟩, host)
  | added (runs : Runs config calls (a, host)) (added : a.addGrid called = .ok next) :
      Runs config calls (next, host)
  | changed (runs : Runs config calls (a, host)) (there : g ∈ a.grids) (moves : g.Moves next) :
      Runs config calls (a.setGrid next, host)
  | attached (runs : Runs config calls (a, host)) (id : ProcessorId) :
      Runs config calls (a.attach id host)
  | elsewhere (runs : Runs config calls (a, host)) (later : Host ω) : Runs config calls (a, later)
  | called (runs : Runs config calls s) (attempts : Attempts source step s (outcome, next)) :
      Runs config (calls ++ [(step, outcome)]) next

def exported (calls : List (Nat × Outcome ExportError (Option Metrics))) : List Nat :=
  calls.filterMap fun (step, outcome) =>
    match outcome with
    | .ok (some _) => some step
    | _ => none

end Adaptor
end InSitu
