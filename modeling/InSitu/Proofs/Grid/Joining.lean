import InSitu.Proofs.Grid.Writing
namespace InSitu

theorem Column.refresh_aborts {c : Column ο} {failure : Failure ProjectionError}
    (ordered : start ≤ stop) (within : stop ≤ objects.length)
    (failed : (c.refresh objects start stop).1 = .error failure) : failure = .abort none := by
  have sound := Session.refresh_sound objects start stop ⟨c.buffer, 0⟩
  simp only [refresh, onSession] at failed
  generalize Session.refresh objects start stop ⟨c.buffer, 0⟩ = result at sound failed
  cases sound with
  | refused outside => omega
  | bound | copied | renewed => cases failed
  | interrupted =>
    cases failed
    rfl

theorem Worker.refresh_aborts {start stop : Nat} {w : Worker ο} {failure : Failure ProjectionError}
    (ordered : start ≤ stop) (within : stop ≤ objects.length)
    (failed : (w.refresh objects start stop).1 = .error failure) : failure = .abort none := by
  unfold refresh at failed
  rcases swept : sweep (Column.refresh objects start stop) w.columns with ⟨found | done, columns⟩ <;>
    rw [swept] at failed <;> cases failed
  obtain ⟨c, -, failed⟩ := sweep_fails (congrArg Prod.fst swept)
  exact Column.refresh_aborts ordered within failed

namespace Errand

-- A worker is aborted while it builds its piece or not at all.
def Echoes (built : Outcome ExportError Piece) : Errand → Prop
  | .create piece | .fill piece => built = .ok piece
  | .done outcome => ∀ note, outcome = .error (.abort note) ↔ built = .error (.abort note)

theorem start_echoes (built : Outcome ExportError Piece) : (start built).Echoes built := by
  cases built with
  | error failure =>
    intro note
    simp
  | ok piece => rfl

theorem turn_echoes {errand : Errand} (echoes : errand.Echoes built) (directory : Path)
    (files : Files) : (errand.turn directory files).1.Echoes built := by
  cases errand with
  | done outcome => exact echoes
  | create piece =>
    cases echoes
    cases created : files.create (path directory piece) <;> simp [turn, created, Echoes]
  | fill piece =>
    cases echoes
    cases filled : files.fill (path directory piece) (.text piece.text) <;>
      simp [turn, filled, Echoes]

end Errand

theorem Turns.each {valid : Nat → Errand → Prop}
    (turns : Turns directory errands files last reached)
    (kept : ∀ files number errand, valid number errand → valid number (errand.turn directory files).1)
    (before : ∀ (number : Nat) errand, errands[number]? = some errand → valid number errand) :
    last.length = errands.length ∧
      ∀ (number : Nat) errand, last[number]? = some errand → valid number errand := by
  induction turns with
  | rest => exact ⟨rfl, before⟩
  | @turn errands number errand _ _ files next onward ih =>
    obtain ⟨size, after⟩ := ih (Errand.each_set next
      (kept files number errand (before number errand next))
      fun other moved _ placed => before other moved placed)
    exact ⟨size.trans List.length_set, after⟩

theorem Turns.echo {built : List (Outcome ExportError Piece)}
    {outcomes : List (Outcome ExportError Path)}
    (turns : Turns directory (built.map .start) files (outcomes.map .done) written)
    (number : Nat) (note : Option String) :
    outcomes[number]? = some (.error (.abort note)) ↔
      built[number]? = some (.error (.abort note)) := by
  have kept : ∀ (files : Files) (number : Nat) (errand : Errand),
      (∃ mine, built[number]? = some mine ∧ errand.Echoes mine) →
      ∃ mine, built[number]? = some mine ∧ (errand.turn directory files).1.Echoes mine :=
    fun files _ _ ⟨mine, there, echoes⟩ => ⟨mine, there, Errand.turn_echoes echoes directory files⟩
  obtain ⟨size, echoes⟩ := turns.each kept fun number errand placed => by
    obtain ⟨mine, there, rfl⟩ := Errand.started placed
    exact ⟨mine, there, Errand.start_echoes mine⟩
  have each : ∀ outcome, outcomes[number]? = some outcome → ∃ mine, built[number]? = some mine ∧
      ∀ note, outcome = .error (.abort note) ↔ mine = .error (.abort note) := fun outcome placed =>
    echoes number (.done outcome) (Errand.ended placed)
  constructor
  · intro aborted
    obtain ⟨mine, there, echo⟩ := each _ aborted
    rw [there, (echo note).mp rfl]
  · intro aborted
    have inside := (List.getElem?_eq_some_iff.mp aborted).1
    rw [List.length_map, List.length_map] at size
    have placed := List.getElem?_eq_getElem (size.symm ▸ inside : number < outcomes.length)
    obtain ⟨mine, there, echo⟩ := each _ placed
    rw [placed, (echo note).mpr (Option.some.inj (there.symm.trans aborted))]

namespace Grid

def Aborts (objects : List ο) (plan : Partition) (g : Grid ο) (number : Nat) : Prop :=
  ∃ w note, g.workers[number]? = some w ∧
    (refreshWorker objects (plan.share number) w).1 = .error (.abort note)

theorem update_joins {g : Grid ο} (several : 2 ≤ g.workers.length)
    (planned : Partition.new? objects.length g.workers.length = .ok plan) :
    (g.update objects).1 = (joinAll (.workerAborted g.name) (g.workers.mapIdx fun number w =>
      (refreshWorker objects (plan.share number) w).1)).map fun _ => objects.length := by
  have refreshed : (g.refreshAll objects).1 = (joinAll (.workerAborted g.name)
      (g.workers.mapIdx fun number w => (refreshWorker objects (plan.share number) w).1)).map
        fun _ => () := by
    unfold refreshAll
    split
    · rename_i worker staff
      rw [staff] at several
      exact absurd several (by simp)
    · rw [planned]
      simp only [Partition.planned_shares planned, forked_exact]
  have updates := g.update_sound objects
  generalize joinAll _ _ = joined at refreshed ⊢
  generalize g.update objects = result at updates ⊢
  cases updates with
  | refreshed answered =>
    cases joined <;> cases answered.symm.trans refreshed
    rfl
  | failed failed =>
    cases joined <;> cases failed.symm.trans refreshed
    rfl

theorem aborts_failed {g : Grid ο}
    (planned : Partition.new? objects.length g.workers.length = .ok plan)
    {failure : Failure ExportError}
    (failed : (g.workers.mapIdx fun number w =>
      (refreshWorker objects (plan.share number) w).1)[number]? = some (.error failure)) :
    failure = .abort none ∧ g.Aborts objects plan number := by
  rw [List.getElem?_mapIdx] at failed
  obtain ⟨w, there, failed⟩ := Option.map_eq_some_iff.mp failed
  obtain ⟨ordered, within⟩ := Partition.planned_within planned number
  have abort : failure = .abort none := by
    simp only [refreshWorker] at failed
    rcases refreshed : (w.refresh objects (plan.share number).start (plan.share number).stop).1 with
      found | done <;> rw [refreshed] at failed <;> cases failed
    rw [w.refresh_aborts ordered within refreshed]
    rfl
  exact ⟨abort, w, none, there, abort ▸ failed⟩

theorem aborts_placed {g : Grid ο} (aborts : g.Aborts objects plan number) :
    ∃ note, (g.workers.mapIdx fun number w =>
      (refreshWorker objects (plan.share number) w).1)[number]? = some (.error (.abort note)) := by
  obtain ⟨w, note, there, aborted⟩ := aborts
  exact ⟨note, by rw [List.getElem?_mapIdx, there, Option.map_some, aborted]⟩

theorem update_verdict {g : Grid ο} (several : 2 ≤ g.workers.length)
    (planned : Partition.new? objects.length g.workers.length = .ok plan) :
    ((g.update objects).1 = .ok objects.length ∧ ∀ number, ¬ g.Aborts objects plan number) ∨
    (∃ number, g.Aborts objects plan number ∧ (
      ((g.update objects).1 = .error (.error (.workerAborted g.name)) ∧
        ∀ other, g.Aborts objects plan other → other = number) ∨
      ((g.update objects).1 = .error (.abort none) ∧
        ∃ other, other ≠ number ∧ g.Aborts objects plan other))) := by
  rw [update_joins several planned]
  rcases joinAll_verdict (.workerAborted g.name) (g.workers.mapIdx fun number w =>
    (refreshWorker objects (plan.share number) w).1) with
    ⟨answers, joined⟩ | ⟨first, failure, failed, told⟩
  · refine .inl ⟨by rw [joined]; rfl, ?_⟩
    intro number aborts
    obtain ⟨note, placed⟩ := aborts_placed aborts
    obtain ⟨a, answered⟩ := joinAll_through.mp ⟨answers, joined⟩ _ (List.mem_of_getElem? placed)
    cases answered
  · obtain ⟨rfl, aborts⟩ := aborts_failed planned failed
    rcases told with ⟨unjoined, verdict⟩ | ⟨joined, verdict⟩
    · obtain ⟨before, behind, found, note, order, stopped, aborted⟩ := unjoined
      have here := (aborts_failed planned stopped).2
      have there := (aborts_failed planned aborted).2
      exact .inr ⟨before, here, .inr ⟨by rw [verdict]; rfl, behind, Nat.ne_of_gt order, there⟩⟩
    · refine .inr ⟨first, aborts, .inl ⟨by rw [verdict]; rfl, ?_⟩⟩
      -- Of two that were aborted, one stands behind the other.
      intro other others
      obtain ⟨note, placed⟩ := aborts_placed others
      rcases Nat.lt_trichotomy other first with less | same | more
      · exact absurd ⟨other, first, _, _, less, placed, failed⟩ joined
      · exact same
      · exact absurd ⟨first, other, _, _, more, failed, placed⟩ joined

theorem update_told {g : Grid ο} (several : 2 ≤ g.workers.length)
    (planned : Partition.new? objects.length g.workers.length = .ok plan) :
    ((g.update objects).1 = .ok objects.length ↔ ∀ number, ¬ g.Aborts objects plan number) ∧
    ((g.update objects).1 = .error (.error (.workerAborted g.name)) ↔
      ∃ number, g.Aborts objects plan number ∧
        ∀ other, g.Aborts objects plan other → other = number) ∧
    ((g.update objects).1 = .error (.abort none) ↔
      ∃ number other, number ≠ other ∧ g.Aborts objects plan number ∧
        g.Aborts objects plan other) := by
  rcases update_verdict several planned with ⟨answered, none⟩ |
    ⟨number, aborts, ⟨refused, alone⟩ | ⟨aborted, other, apart, others⟩⟩
  · rw [answered]
    refine ⟨by simpa using none, ⟨nofun, ?_⟩, nofun, ?_⟩
    · rintro ⟨number, aborts, -⟩
      exact absurd aborts (none number)
    · rintro ⟨number, -, -, aborts, -⟩
      exact absurd aborts (none number)
  · rw [refused]
    refine ⟨⟨nofun, fun none => absurd aborts (none number)⟩, by simpa using ⟨number, aborts, alone⟩,
      nofun, ?_⟩
    rintro ⟨first, second, apart, one, two⟩
    exact absurd ((alone first one).trans (alone second two).symm) apart
  · rw [aborted]
    refine ⟨⟨nofun, fun none => absurd aborts (none number)⟩, ⟨nofun, ?_⟩,
      by simpa using ⟨number, other, apart.symm, aborts, others⟩⟩
    rintro ⟨only, -, alone⟩
    exact absurd ((alone other others).trans (alone number aborts).symm) apart

theorem writes_told {g : Grid ο} (writes : WritesPieces objects directory step time g files result) :
    ∃ outcomes written, Turns directory ((g.built objects step time).map .start) files
        (outcomes.map .done) written ∧
      ∀ (number : Nat) failure, outcomes[number]? = some (.error failure) →
        (result.1 = .error (.abort none) ↔ Unjoined outcomes) ∧
        ((∃ cause, result.1 = .error (.error cause)) ↔ ¬ Unjoined outcomes) := by
  cases writes with
  | failed turns joined =>
    rename_i written outcomes fault
    refine ⟨outcomes, written, turns, fun number failure failed => ?_⟩
    rcases joinAll_verdict (.workerAborted g.name) outcomes with
      ⟨answers, through⟩ | ⟨first, found, -, ⟨unjoined, told⟩ | ⟨none, told⟩⟩
    · cases joined.symm.trans through
    · cases joined.symm.trans told
      simp [unjoined]
    · cases joined.symm.trans told
      simp [none]
  | unlisted turns joined index | listed turns joined index =>
    refine ⟨_, _, turns, fun number failure failed => ?_⟩
    obtain ⟨a, answered⟩ := joinAll_through.mp ⟨_, joined⟩ _ (List.mem_of_getElem? failed)
    cases answered

-- With several workers an update answers if none is aborted, is refused by name if one is, and is
-- aborted itself if more than one is. A write, with any number of workers and in any order of their
-- turns, is aborted if and only if a worker that was aborted stands behind one that failed.
theorem workers_reported (objects : List ο) (g : Grid ο) :
    (2 ≤ g.workers.length → ∃ plan,
      Partition.new? objects.length g.workers.length = .ok plan ∧
      ((g.update objects).1 = .ok objects.length ↔ ∀ number, ¬ g.Aborts objects plan number) ∧
      ((g.update objects).1 = .error (.error (.workerAborted g.name)) ↔
        ∃ number, g.Aborts objects plan number ∧
          ∀ other, g.Aborts objects plan other → other = number) ∧
      ((g.update objects).1 = .error (.abort none) ↔
        ∃ number other, number ≠ other ∧ g.Aborts objects plan number ∧
          g.Aborts objects plan other)) ∧
    ∀ directory step time files,
      WritesPieces objects directory step time g files
        (g.writePieces objects directory step time files) ∧
      ∀ result, WritesPieces objects directory step time g files result →
        ∃ outcomes written, Turns directory ((g.built objects step time).map .start) files
            (outcomes.map .done) written ∧
          (∀ (number : Nat) note, outcomes[number]? = some (.error (.abort note)) ↔
            (g.built objects step time)[number]? = some (.error (.abort note))) ∧
          ∀ (number : Nat) failure, outcomes[number]? = some (.error failure) →
            (result.1 = .error (.abort none) ↔ Unjoined outcomes) ∧
            ((∃ cause, result.1 = .error (.error cause)) ↔ ¬ Unjoined outcomes) := by
  constructor
  · intro several
    have some : g.workers.length ≠ 0 := by omega
    exact ⟨_, if_neg some, update_told several (if_neg some)⟩
  · intro directory step time files
    refine ⟨writePieces_sound objects directory step time g files, ?_⟩
    intro result writes
    obtain ⟨outcomes, written, turns, told⟩ := writes_told writes
    exact ⟨outcomes, written, turns, turns.echo, told⟩

def rows : Grid (List UInt64) :=
  match (initial "cells" 2 .copy).addAttribute ⟨"pair", .vector 2, none⟩ .u64 Accessor.rows with
  | .ok (_, g) => g
  | .error _ => initial "cells" 2 .copy

theorem workers_reported_rows : 2 ≤ rows.workers.length ∧
    (rows.update [[1, 2], [3]]).1 = .error (.error (.workerAborted "cells")) ∧
    ∀ directory files, ∃ failure,
      ((rows.update [[1, 2], [3]]).2.writePieces [[1, 2], [3]] directory 0 0 files).1 =
        .error failure := by
  have several : 2 ≤ rows.workers.length := by decide
  refine ⟨several, ?_, ?_⟩
  · obtain ⟨updates, -⟩ := workers_reported [[1, 2], [3]] rows
    obtain ⟨plan, planned, -, named, -⟩ := updates several
    cases planned
    refine named.mpr ⟨1, ⟨_, _, rfl, rfl⟩, ?_⟩
    rintro other ⟨w, note, there, aborted⟩
    match other with
    | 0 =>
      cases there
      cases aborted
    | 1 => rfl
    | other + 2 => cases there
  · intro directory files
    obtain ⟨-, written⟩ := workers_reported [[1, 2], [3]] (rows.update [[1, 2], [3]]).2
    obtain ⟨writes, reported⟩ := written directory 0 0 files
    obtain ⟨outcomes, reached, turns, echo, told⟩ := reported _ writes
    obtain ⟨aborted, refused⟩ := told 1 _ ((echo 1 none).mpr rfl)
    by_cases unjoined : Unjoined outcomes
    · exact ⟨_, aborted.mpr unjoined⟩
    · obtain ⟨cause, answered⟩ := refused.mpr unjoined
      exact ⟨_, answered⟩

-- Where both rows are too short, the second worker is not joined, and no grid is named.
theorem workers_unreported_rows :
    (initial "cells" 2 .copy).addAttribute ⟨"pair", .vector 2, none⟩ .u64 Accessor.rows =
      .ok (0, rows) ∧ 2 ≤ rows.workers.length ∧
    Partition.new? 2 rows.workers.length = .ok ⟨2, 2, 1⟩ ∧
    rows.Aborts [[1], [3]] ⟨2, 2, 1⟩ 0 ∧ rows.Aborts [[1], [3]] ⟨2, 2, 1⟩ 1 ∧
    (rows.update [[1], [3]]).1 = .error (.abort none) ∧
    ∀ directory files,
      ((rows.update [[1], [3]]).2.writePieces [[1], [3]] directory 0 0 files).1 =
        .error (.abort none) := by
  refine ⟨rfl, by decide, rfl, ⟨_, _, rfl, rfl⟩, ⟨_, _, rfl, rfl⟩, rfl, ?_⟩
  intro directory files
  rfl

end Grid
end InSitu
