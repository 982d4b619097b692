import InSitu.Proofs.Grid.Joining
namespace InSitu

namespace Accessor

theorem copyAll_cut {a : Accessor ο α} {objects : List ο} (cut : (a.copyAll objects).complete = false) :
    ∃ shown object rest, objects = shown ++ object :: rest ∧ (∀ earlier ∈ shown, a.Shows earlier) ∧
      ¬ a.Shows object ∧ (a.copyAll objects).values = a.scalars shown := by
  induction objects with
  | nil => cases cut
  | cons head rest ih =>
    by_cases enough : a.Shows head
    · simp only [copyAll, tuple_shown a enough] at cut ⊢
      obtain ⟨shown, object, behind, rfl, each, short, values⟩ := ih cut
      refine ⟨head :: shown, object, behind, rfl, ?_, short, ?_⟩
      · simpa using ⟨enough, each⟩
      · rw [values, scalars, scalars, List.flatMap_cons]
    · exact ⟨[], head, rest, rfl, by simp, enough, by simp [copyAll, tuple_missing a enough, scalars]⟩

end Accessor

namespace Session
variable [Scalar α] {s : Session ο α}

theorem refresh_binds (answered : (refresh objects start stop s).1 = .ok ()) :
    (refresh objects start stop s).2.buffer.start = start ∧
      (refresh objects start stop s).2.buffer.stop = stop ∧
      (refresh objects start stop s).2.buffer.stats.refreshes = s.buffer.stats.refreshes + 1 := by
  have sound := refresh_sound objects start stop s
  generalize refresh objects start stop s = result at sound answered ⊢
  cases sound with
  | refused | interrupted => cases answered
  | bound | copied | renewed => exact ⟨rfl, rfl, rfl⟩

theorem refresh_cut {failure : Failure ProjectionError} (ordered : start ≤ stop)
    (within : stop ≤ objects.length) (failed : (refresh objects start stop s).1 = .error failure) :
    s.buffer.mode = .copy ∧ ∃ shown object rest, objects.extract start stop = shown ++ object :: rest ∧
      (∀ earlier ∈ shown, s.buffer.accessor.Shows earlier) ∧ ¬ s.buffer.accessor.Shows object ∧
      (refresh objects start stop s).2.buffer =
        {s.buffer.bind start stop with staging := .copied (s.buffer.accessor.scalars shown)} := by
  have sound := refresh_sound objects start stop s
  generalize refresh objects start stop s = result at sound failed ⊢
  cases sound with
  | refused outside => omega
  | bound | copied | renewed => cases failed
  | interrupted _ _ staging copy =>
    obtain ⟨shown, object, rest, split, each, short, values⟩ :=
      Accessor.copyAll_cut (congrArg Accessor.Copied.complete copy)
    rw [copy] at values
    exact ⟨congrArg Staging.mode staging, shown, object, rest, split, each, short, by rw [← values]⟩

end Session

namespace Column

structure Taken (objects : List ο) (share : Range) (c reached : Column ο) : Prop where
  answered : c.refresh objects share.start share.stop = (.ok (), reached)
  start_eq : reached.buffer.start = share.start
  stop_eq : reached.buffer.stop = share.stop
  registered_eq : reached.registered = c.registered
  counted : reached.buffer.stats.refreshes = c.buffer.stats.refreshes + 1

-- A column whose refresh over a share was cut short. Only a copy reads its objects then. It has the new
-- range and the tuples in front of the object that shows too little; no counter has moved.
structure Cut (objects : List ο) (share : Range) (c reached : Column ο) : Prop where
  aborted : c.refresh objects share.start share.stop = (.error (.abort none), reached)
  copies : c.mode = .copy
  short : ∃ shown object rest, objects.extract share.start share.stop = shown ++ object :: rest ∧
    (∀ earlier ∈ shown, c.registered.accessor.Shows earlier) ∧
    ¬ c.registered.accessor.Shows object ∧
    reached = ⟨c.type, {c.buffer.bind share.start share.stop with
      staging := .copied (c.registered.accessor.scalars shown)}⟩

theorem refresh_taken {share : Range} {c : Column ο}
    (answered : (c.refresh objects share.start share.stop).1 = .ok ()) :
    c.Taken objects share (c.refresh objects share.start share.stop).2 := by
  obtain ⟨start, stop, counted⟩ := Session.refresh_binds (s := ⟨c.buffer, 0⟩) answered
  exact ⟨Prod.ext answered rfl, start, stop, (c.refresh_keeps ..).1, counted⟩

theorem refresh_cut {share : Range} {c : Column ο} {failure : Failure ProjectionError}
    (ordered : share.start ≤ share.stop) (within : share.stop ≤ objects.length)
    (failed : (c.refresh objects share.start share.stop).1 = .error failure) :
    c.Cut objects share (c.refresh objects share.start share.stop).2 := by
  obtain rfl := refresh_aborts ordered within failed
  obtain ⟨copies, shown, object, rest, split, each, short, reached⟩ :=
    Session.refresh_cut (s := ⟨c.buffer, 0⟩) ordered within failed
  exact ⟨Prod.ext failed rfl, copies, shown, object, rest, split, each, short,
    congrArg (Column.mk c.type) reached⟩

end Column

namespace Worker

inductive Through (objects : List ο) (share : Range) (w : Worker ο) : Worker ο → Prop where
  | refreshed (columns : List.Forall₂ (Column.Taken objects share) w.columns taken) :
      Through objects share w ⟨taken, share.start, share.stop⟩

inductive Stopped (objects : List ο) (share : Range) : Worker ο → Worker ο → Prop where
  | midway {start stop : Nat} (columns : List.Forall₂ (Column.Taken objects share) front taken)
      (cut : Column.Cut objects share c reached) :
      Stopped objects share ⟨front ++ c :: behind, start, stop⟩ ⟨taken ++ reached :: behind, start, stop⟩

theorem columns_taken {share : Range} {columns : List (Column ο)}
    (each : ∀ c ∈ columns, (c.refresh objects share.start share.stop).1 = .ok ()) :
    List.Forall₂ (Column.Taken objects share) columns
      (columns.map fun c => (c.refresh objects share.start share.stop).2) :=
  List.forall₂_map_right_iff.mpr <| List.forall₂_same.mpr fun c member =>
    Column.refresh_taken (each c member)

theorem refresh_through {share : Range} {w : Worker ο}
    (answered : (w.refresh objects share.start share.stop).1 = .ok ()) :
    w.Through objects share (w.refresh objects share.start share.stop).2 := by
  obtain ⟨each, reached⟩ := refresh_whole answered
  rw [reached]
  exact .refreshed (columns_taken each)

theorem refresh_stopped {share : Range} {w : Worker ο} {failure : Failure ProjectionError}
    (ordered : share.start ≤ share.stop) (within : share.stop ≤ objects.length)
    (failed : (w.refresh objects share.start share.stop).1 = .error failure) :
    w.Stopped objects share (w.refresh objects share.start share.stop).2 := by
  obtain ⟨columns, start, stop⟩ := w
  unfold refresh at failed ⊢
  rcases swept : sweep (Column.refresh objects share.start share.stop) columns with
    ⟨found | done, reached⟩
  · obtain ⟨front, c, behind, rfl, answered, cut, left⟩ := sweep_stops (congrArg Prod.fst swept)
    rw [swept] at left
    obtain rfl : reached = _ := left
    exact .midway (columns_taken fun earlier member => (answered earlier member).elim fun ⟨⟩ found => found)
      (Column.refresh_cut ordered within cut)
  · simp only [swept] at failed
    cases failed

end Worker

namespace Grid

-- What an update over the shares of a plan leaves behind if a worker is aborted. A worker that is not
-- comes to what it would have come to in any update that succeeds, whatever the other workers are then.
structure FailedUpdate (objects : List ο) (plan : Partition) (g : Grid ο)
    (result : Outcome ExportError Nat × Grid ο) : Prop where
  failed : ∃ failure, result.1 = .error failure
  frame : result.2 = {g with workers := result.2.workers}
  staffed : result.2.workers.length = g.workers.length
  stopped : ∀ number w, g.workers[number]? = some w → g.Aborts objects plan number →
    ∃ reached, result.2.workers[number]? = some reached ∧ w.Stopped objects (plan.share number) reached
  through : ∀ number w, g.workers[number]? = some w → ¬ g.Aborts objects plan number →
    ∃ reached, result.2.workers[number]? = some reached ∧
      w.Through objects (plan.share number) reached ∧
      ∀ other : Grid ο, other.workers.length = g.workers.length → other.workers[number]? = some w →
        (other.update objects).1 = .ok objects.length →
        (other.update objects).2.workers[number]? = some reached
  spared : ∀ number w, g.workers[number]? = some w → ¬ g.Aborts objects plan number →
    ∃ other : Grid ο, other.workers.length = g.workers.length ∧ other.workers[number]? = some w ∧
      (other.update objects).1 = .ok objects.length

section Update
variable {objects : List ο} {g : Grid ο} {plan : Partition} {w : Worker ο}

theorem update_frame {failure : Failure ExportError} (failed : (g.update objects).1 = .error failure) :
    (g.update objects).2 = {g with workers := (g.update objects).2.workers} := by
  have updates := g.update_sound objects
  generalize g.update objects = result at updates failed ⊢
  cases updates with
  | refreshed _ => cases failed
  | failed _ => rfl

theorem update_worker (planned : Partition.new? objects.length g.workers.length = .ok plan)
    (there : g.workers[number]? = some w) : (g.update objects).2.workers[number]? =
      some (w.refresh objects (plan.share number).start (plan.share number).stop).2 := by
  rw [update_workers planned, List.getElem?_mapIdx, there, Option.map_some]

theorem aborts_exact (planned : Partition.new? objects.length g.workers.length = .ok plan)
    (there : g.workers[number]? = some w) : g.Aborts objects plan number ↔
      ∃ failure, (w.refresh objects (plan.share number).start (plan.share number).stop).1 =
        .error failure := by
  constructor
  · rintro ⟨found, note, here, aborted⟩
    obtain rfl := Option.some.inj (there.symm.trans here)
    cases refreshed : (w.refresh objects (plan.share number).start (plan.share number).stop).1 with
    | error failure => exact ⟨failure, rfl⟩
    | ok done =>
      simp only [refreshWorker, refreshed] at aborted
      cases aborted
  · rintro ⟨failure, failed⟩
    obtain ⟨ordered, within⟩ := Partition.planned_within planned number
    obtain rfl := w.refresh_aborts ordered within failed
    refine ⟨w, none, there, ?_⟩
    simp only [refreshWorker, failed]
    rfl

theorem answers_exact (planned : Partition.new? objects.length g.workers.length = .ok plan)
    (there : g.workers[number]? = some w) : ¬ g.Aborts objects plan number ↔
      (w.refresh objects (plan.share number).start (plan.share number).stop).1 = .ok () := by
  rw [aborts_exact planned there]
  cases (w.refresh objects (plan.share number).start (plan.share number).stop).1 <;> simp

-- The others taken off their columns, a worker that is not aborted is in an update that succeeds.
theorem alone_updates (several : 2 ≤ g.workers.length)
    (planned : Partition.new? objects.length g.workers.length = .ok plan)
    (there : g.workers[number]? = some w) (spared : ¬ g.Aborts objects plan number) :
    ∃ other : Grid ο, other.workers.length = g.workers.length ∧ other.workers[number]? = some w ∧
      (other.update objects).1 = .ok objects.length := by
  have inside := (List.getElem?_eq_some_iff.mp there).1
  obtain ⟨other, workers⟩ : ∃ other : Grid ο,
      other.workers = (List.replicate g.workers.length .initial).set number w := ⟨{g with workers := _}, rfl⟩
  have same : other.workers.length = g.workers.length := by simp [workers]
  have here : other.workers[number]? = some w := by simp [workers, inside]
  refine ⟨other, same, here, (update_told (same ▸ several) (same ▸ planned)).1.mpr fun place => ?_⟩
  by_cases own : place = number
  · rw [own, answers_exact (same ▸ planned) here, ← answers_exact planned there]
    exact spared
  · rintro ⟨found, note, listed, aborted⟩
    rw [workers, List.getElem?_set_ne (Ne.symm own)] at listed
    obtain rfl := List.eq_of_mem_replicate (List.mem_of_getElem? listed)
    cases aborted

theorem failed_update (several : 2 ≤ g.workers.length)
    (planned : Partition.new? objects.length g.workers.length = .ok plan)
    (aborts : ∃ number, g.Aborts objects plan number) :
    FailedUpdate objects plan g (g.update objects) := by
  have failed : ∃ failure, (g.update objects).1 = .error failure := by
    obtain ⟨number, aborts⟩ := aborts
    rcases update_verdict several planned with ⟨-, none⟩ | ⟨first, -, ⟨told, -⟩ | ⟨told, -⟩⟩
    · exact absurd aborts (none number)
    · exact ⟨_, told⟩
    · exact ⟨_, told⟩
  obtain ⟨failure, told⟩ := failed
  refine ⟨⟨failure, told⟩, update_frame told, ?_, ?_, ?_, ?_⟩
  · rw [update_workers planned, List.length_mapIdx]
  · intro number w there aborts
    obtain ⟨ordered, within⟩ := Partition.planned_within planned number
    obtain ⟨failure, failed⟩ := (aborts_exact planned there).mp aborts
    exact ⟨_, update_worker planned there, Worker.refresh_stopped ordered within failed⟩
  · intro number w there spared
    have answered := (answers_exact planned there).mp spared
    refine ⟨_, update_worker planned there, Worker.refresh_through answered, ?_⟩
    intro other same here _
    exact update_worker (same ▸ planned) here
  · intro number w there spared
    exact alone_updates several planned there spared

end Update

def mixed : Grid (List UInt64) :=
  let enrolled (g : Grid (List UInt64)) (mode : Mode) : Grid (List UInt64) :=
    match g.addColumn ⟨mode.text, .vector 2, none⟩
      ⟨.u64, .initial mode.text mode Accessor.rows Nat.zero_lt_two⟩ with
    | .ok (_, next) => next
    | .error _ => g
  ([.cache, .copy, .zeroCopy].foldl enrolled (initial "cells" 3 .copy)).update
    [[1, 2], [3, 4], [5, 6], [7, 8], [1, 2], [3, 4]] |>.2

-- Two of three rows are too short. The grid still counts six, and the second worker stands between its
-- two ranges.
theorem failed_update_mixed : 2 ≤ mixed.workers.length ∧
    Partition.new? 3 mixed.workers.length = .ok ⟨3, 3, 1⟩ ∧
    mixed.Aborts [[5, 6], [7], [8]] ⟨3, 3, 1⟩ 1 ∧
    (mixed.update [[5, 6], [7], [8]]).2.tuples = 6 ∧
    ∃ w, (mixed.update [[5, 6], [7], [8]]).2.workers[1]? = some w ∧ w.start = 2 ∧ w.stop = 4 ∧
      w.columns.map (fun c => (c.buffer.start, c.buffer.stop)) = [(1, 2), (1, 2), (2, 4)] := by
  have several : 2 ≤ mixed.workers.length := by decide
  have aborts : mixed.Aborts [[5, 6], [7], [8]] ⟨3, 3, 1⟩ 1 := ⟨_, none, rfl, rfl⟩
  have failed : FailedUpdate [[5, 6], [7], [8]] ⟨3, 3, 1⟩ mixed _ :=
    failed_update several rfl ⟨1, aborts⟩
  refine ⟨several, rfl, aborts, ?_, _, rfl, rfl, rfl, rfl⟩
  rw [failed.frame]
  rfl

end Grid
end InSitu
