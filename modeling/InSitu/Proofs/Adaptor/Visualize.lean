import InSitu.Adaptor
import Mathlib.Algebra.GroupWithZero.Nat
import InSitu.Proofs.Grid.Writing
namespace InSitu.Adaptor

def prepare (source : Source ο) (step : Nat) (time : Float) : Run ο ω Nat := do
  let tuples ← refreshGrids source
  match (← get).1.processor with
  | some id => handOver source step time id
  | none => pure ()
  return tuples

inductive WritesGrids (source : Source ο) (directory : Path) (step : Nat) (time : Float) :
    List (Grid ο) → Host ω → Outcome ExportError Nat × List (Grid ο) × Host ω → Prop where
  | none : WritesGrids source directory step time [] host (.ok 0, [], host)
  | refused (first : g.WritesPieces (objectsOf source g) directory step time host.files
        (.error (.error cause), reached, files)) :
      WritesGrids source directory step time (g :: rest) host
        (.error (.error cause), reached :: rest, {host with files}.note (.exportFailed g.name step))
  | aborted (first : g.WritesPieces (objectsOf source g) directory step time host.files
        (.error (.abort note), reached, files)) :
      WritesGrids source directory step time (g :: rest) host
        (.error (.abort note), reached :: rest, {host with files})
  | written (first : g.WritesPieces (objectsOf source g) directory step time host.files
        (.ok pieces, reached, files))
      (others : WritesGrids source directory step time rest {host with files} (outcome, later, last)) :
      WritesGrids source directory step time (g :: rest) host
        (outcome.map (pieces + ·), reached :: later, last)

def enter (step : Nat) (time : Float) (tuples pieces : Nat) (s : Adaptor ο × Host ω) :
    Adaptor ο × Host ω :=
  ({s.1 with steps := s.1.steps ++ [step]}, s.2.note (.frameExported step time tuples pieces))

inductive Visualizes (source : Source ο) (step : Nat) (s : Adaptor ο × Host ω) :
    Outcome ExportError (Option Metrics) × (Adaptor ο × Host ω) → Prop where
  | undecided (asked : s.1.config.isExportStep step = .error fault) :
      Visualizes source step s (.error fault, s)
  | passed (asked : s.1.config.isExportStep (ε := ExportError) step = .ok false) :
      Visualizes source step s (.ok none, s)
  | unprepared (asked : s.1.config.isExportStep (ε := ExportError) step = .ok true)
      (prepared : prepare source step (s.1.config.timeAt step) s = (.error fault, reached)) :
      Visualizes source step s (.error fault, reached)
  | unwritten (asked : s.1.config.isExportStep (ε := ExportError) step = .ok true)
      (prepared : prepare source step (s.1.config.timeAt step) s = (.ok tuples, reached))
      (off : s.1.config.exportFiles = false) :
      Visualizes source step s (.ok (some ⟨step, s.1.config.timeAt step, tuples, 0⟩),
        enter step (s.1.config.timeAt step) tuples 0 reached)
  | interrupted (asked : s.1.config.isExportStep (ε := ExportError) step = .ok true)
      (prepared : prepare source step (s.1.config.timeAt step) s = (.ok tuples, reached))
      (on : s.1.config.exportFiles = true)
      (writes : WritesGrids source reached.1.config.outputDir step (s.1.config.timeAt step)
        reached.1.grids reached.2 (.error fault, later, host)) :
      Visualizes source step s (.error fault, ({reached.1 with grids := later}, host))
  | exported (asked : s.1.config.isExportStep (ε := ExportError) step = .ok true)
      (prepared : prepare source step (s.1.config.timeAt step) s = (.ok tuples, reached))
      (on : s.1.config.exportFiles = true)
      (writes : WritesGrids source reached.1.config.outputDir step (s.1.config.timeAt step)
        reached.1.grids reached.2 (.ok pieces, later, host)) :
      Visualizes source step s (.ok (some ⟨step, s.1.config.timeAt step, tuples, pieces⟩),
        enter step (s.1.config.timeAt step) tuples pieces ({reached.1 with grids := later}, host))

-- What a call keeps of an adaptor, however it ends.
structure Keeps (a later : Adaptor ο) : Prop where
  config : later.config = a.config
  workers : later.workers = a.workers
  faces : later.grids.map Grid.face = a.grids.map Grid.face
  regular : ∀ g ∈ later.grids, g.Regular

theorem Keeps.like {a later : Adaptor ο} (keeps : a.Keeps later) (member : g ∈ later.grids) :
    ∃ before ∈ a.grids, g.face = before.face := by
  have listed : g.face ∈ a.grids.map Grid.face := keeps.faces ▸ List.mem_map_of_mem member
  obtain ⟨before, there, same⟩ := List.mem_map.mp listed
  exact ⟨before, there, same.symm⟩

theorem Keeps.named {a later : Adaptor ο} (keeps : a.Keeps later) (member : g ∈ later.grids) :
    ∃ before ∈ a.grids, g.name = before.name := by
  obtain ⟨before, there, same⟩ := keeps.like member
  exact ⟨before, there, congrArg (·.1.name) same⟩

theorem Keeps.names {a later : Adaptor ο} (keeps : a.Keeps later) :
    later.grids.map (·.name) = a.grids.map (·.name) := by
  have names := congrArg (List.map fun face => face.1.name) keeps.faces
  rw [List.map_map, List.map_map] at names
  exact names

theorem Keeps.staff {a later : Adaptor ο} (keeps : a.Keeps later) :
    later.grids.map (·.workers.length) = a.grids.map (·.workers.length) := by
  have staff := congrArg (List.map fun face => face.1.staff) keeps.faces
  rw [List.map_map, List.map_map] at staff
  exact staff

theorem Keeps.trans {a between last : Adaptor ο} (before : a.Keeps between)
    (after : between.Keeps last) : a.Keeps last :=
  ⟨after.config.trans before.config, after.workers.trans before.workers,
    after.faces.trans before.faces, after.regular⟩

def Shows (source : Source ο) (grids : List (Grid ο)) : Prop :=
  ∀ g ∈ grids, ∃ plan, g.Mirrors (objectsOf source g) plan

theorem Shows.regular {grids : List (Grid ο)} (shown : Shows source grids) :
    ∀ g ∈ grids, g.Regular := by
  intro g member
  obtain ⟨plan, mirrors⟩ := shown g member
  exact mirrors.regular

theorem writesFirst_keeps {g : Grid ο} {rest : List (Grid ο)} (regular : g.Regular)
    (within : '/' ∉ g.name.toList)
    (first : g.WritesPieces objects directory step time files (outcome, reached, later)) :
    reached.Regular ∧ reached.face = g.face ∧
      Files.Keeps (fun name => ∃ other ∈ g :: rest, GridFile.Named other.name step name) files
        later := by
  obtain ⟨kept, same⟩ := Grid.writes_face regular first
  refine ⟨kept, same, (Grid.writes_keep within first).widen ?_⟩
  intro name own
  exact ⟨g, List.mem_cons_self, own⟩

theorem writesGrids_keep {grids : List (Grid ο)} {host : Host ω}
    {result : Outcome ExportError Nat × List (Grid ο) × Host ω}
    (writes : WritesGrids source directory step time grids host result)
    (regular : ∀ g ∈ grids, g.Regular) (within : ∀ g ∈ grids, '/' ∉ g.name.toList) :
    result.2.1.map Grid.face = grids.map Grid.face ∧ (∀ g ∈ result.2.1, g.Regular) ∧
      Files.Keeps (fun name => ∃ g ∈ grids, GridFile.Named g.name step name) host.files
        result.2.2.files := by
  induction writes with
  | none => exact ⟨rfl, regular, .same⟩
  | refused first =>
    rw [List.forall_mem_cons] at regular within
    obtain ⟨kept, same, keeps⟩ := writesFirst_keeps regular.1 within.1 first
    exact ⟨congrArg (· :: _) same, List.forall_mem_cons.mpr ⟨kept, regular.2⟩, keeps⟩
  | aborted first =>
    rw [List.forall_mem_cons] at regular within
    obtain ⟨kept, same, keeps⟩ := writesFirst_keeps regular.1 within.1 first
    exact ⟨congrArg (· :: _) same, List.forall_mem_cons.mpr ⟨kept, regular.2⟩, keeps⟩
  | written first others ih =>
    rw [List.forall_mem_cons] at regular within
    obtain ⟨kept, same, keeps⟩ := writesFirst_keeps regular.1 within.1 first
    obtain ⟨faces, sound, after⟩ := ih regular.2 within.2
    refine ⟨List.cons_eq_cons.mpr ⟨same, faces⟩, List.forall_mem_cons.mpr ⟨kept, sound⟩,
      keeps.trans (after.widen ?_)⟩
    intro name own
    obtain ⟨g, member, own⟩ := own
    exact ⟨g, List.mem_cons_of_mem _ member, own⟩

theorem Keeps.within {a later : Adaptor ο} (keeps : a.Keeps later)
    (within : ∀ g ∈ a.grids, '/' ∉ g.name.toList) : ∀ g ∈ later.grids, '/' ∉ g.name.toList := by
  intro g member
  obtain ⟨before, there, same⟩ := keeps.named member
  rw [same]
  exact within before there

theorem Keeps.written {a later : Adaptor ο} {last host : Host ω} {grids : List (Grid ο)}
    (keeps : a.Keeps later) (within : ∀ g ∈ a.grids, '/' ∉ g.name.toList)
    (writes : WritesGrids source directory step time later.grids last (outcome, grids, host)) :
    a.Keeps {later with grids} ∧
      Files.Keeps (fun name => ∃ g ∈ a.grids, GridFile.Named g.name step name) last.files
        host.files := by
  obtain ⟨faces, regular, files⟩ := writesGrids_keep writes keeps.regular (keeps.within within)
  refine ⟨⟨keeps.config, keeps.workers, faces.trans keeps.faces, regular⟩, files.widen ?_⟩
  intro name own
  obtain ⟨g, member, own⟩ := own
  obtain ⟨before, there, same⟩ := keeps.named member
  exact ⟨before, there, same ▸ own⟩

end InSitu.Adaptor
