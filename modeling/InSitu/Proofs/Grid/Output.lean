import InSitu.Proofs.Grid.History
namespace InSitu

namespace Registered

end Registered

namespace Grid

structure Mirrors (objects : List ο) (plan : Partition) (g : Grid ο) : Prop where
  regular : g.Regular
  planned : Partition.new? objects.length g.workers.length = .ok plan
  tuples_eq : g.tuples = objects.length
  workers : ∀ number (w : Worker ο), g.workers[number]? = some w →
    w.Mirrors objects (plan.share number)

def chosen (g : Grid ο) : List (Registered ο) :=
  Registered.chosen g.registered ((List.range g.registered.length).map (isSelected g.selection))

theorem Regular.chosen_eq {g : Grid ο} (regular : g.Regular) :
    Registered.chosen g.registered g.selected = g.chosen := by
  rw [chosen, regular.flagged, regular.counted]

def plainPiece (objects : List ο) (plan : Partition) (step : Nat) (time : Float) (number : Nat)
    (g : Grid ο) : Piece :=
  ⟨g.name, step, time, number, (plan.share number).start, (plan.share number).stop,
    g.chosen.map (·.project (plan.part objects number))⟩

theorem update_mirrors {g : Grid ο} (regular : g.Regular)
    (planned : Partition.new? objects.length g.workers.length = .ok plan)
    (answered : (g.update objects).1 = .ok count) :
    count = objects.length ∧ (g.update objects).2.Mirrors objects plan := by
  have kept := (update_regular regular objects).1
  have workers := update_workers planned
  have updates := g.update_sound objects
  generalize g.update objects = result at answered kept workers updates ⊢
  cases updates with
  | failed failed => cases answered
  | refreshed refreshed =>
    cases answered
    refine ⟨rfl, kept, ?_, rfl, ?_⟩
    · rw [workers, List.length_mapIdx]
      exact planned
    · intro number w there
      rw [workers, List.getElem?_mapIdx] at there
      obtain ⟨before, found, rfl⟩ := Option.map_eq_some_iff.mp there
      have each := (refreshAll_exact planned).2.mp refreshed number before found
      apply Worker.refresh_mirrors (regular.dated before (List.mem_of_getElem? found))
      simp only [refreshWorker] at each
      rcases outcome : (before.refresh objects (plan.share number).start
        (plan.share number).stop).1 with failure | done
      · rw [outcome] at each
        cases each
      · rfl

-- Reads between two updates, over the updated objects or over ones that are the same in the range
-- that is read: frames, pieces and files, and selections in between. A selection that is refused
-- changes nothing.
inductive Reads (objects : List ο) (g : Grid ο) : Grid ο → Prop where
  | none : Reads objects g g
  | selected {set : Option AttributeSet} (reads : Reads objects g last)
      (selected : last.select set = .ok next) : Reads objects g next
  | framed (reads : Reads objects g last) (agree : Agree objects shown 0 objects.length) :
      Reads objects g (last.frame (ε := ExportError) shown).2
  | pieced (reads : Reads objects g last)
      (agree : ∀ w, last.workers[number]? = some w → Agree objects shown w.start w.stop)
      (step : Nat) (time : Float) :
      Reads objects g (last.piece (ε := ExportError) shown step time number).2
  | collected (reads : Reads objects g last) (agree : Agree objects shown 0 objects.length) :
      Reads objects g (last.collected shown)

namespace Mirrors

variable {ο : Type} {objects shown : List ο} {plan : Partition} {g : Grid ο}

theorem onward {next : Grid ο} (mirrors : g.Mirrors objects plan) (regular : next.Regular)
    (tuples : next.tuples = g.tuples) (staff : next.workers.length = g.workers.length)
    (workers : ∀ (number : Nat) (w : Worker ο), next.workers[number]? = some w →
      ∃ before : Worker ο, g.workers[number]? = some before ∧
        (before.Mirrors objects (plan.share number) → w.Mirrors objects (plan.share number))) :
    next.Mirrors objects plan := by
  refine ⟨regular, staff ▸ mirrors.planned, tuples.trans mirrors.tuples_eq, ?_⟩
  intro number w there
  obtain ⟨before, found, kept⟩ := workers number w there
  exact kept (mirrors.workers number before found)

theorem part (mirrors : g.Mirrors objects plan) (agree : Agree objects shown 0 objects.length)
    (number : Nat) : Agree objects shown (plan.share number).start (plan.share number).stop :=
  agree.part (Partition.planned_within mirrors.planned number).2 _

theorem framed (mirrors : g.Mirrors objects plan) (agree : Agree objects shown 0 objects.length) :
    (g.frame (ε := ε) shown).2.Mirrors objects plan := by
  have places : (g.frame (ε := ε) shown).2.workers.map (fun _ => ()) = g.workers.map fun _ => () :=
    sweep_same fun _ _ => rfl
  have staff : (g.frame (ε := ε) shown).2.workers.length = g.workers.length := by
    simpa using congrArg List.length places
  apply mirrors.onward (frame_regular mirrors.regular shown).1 rfl staff
  intro number w there
  rcases sweep_place (Worker.collect (ε := ε) shown g.selected) g.workers number with left | visited
  · exact ⟨w, left.symm.trans there, id⟩
  · obtain ⟨before, found, rfl⟩ := Option.map_eq_some_iff.mp (visited.symm.trans there)
    exact ⟨before, found, fun kept => (Worker.collect_mirrors kept (mirrors.part agree number)).1⟩

theorem pieced (mirrors : g.Mirrors objects plan)
    (agree : ∀ w, g.workers[number]? = some w → Agree objects shown w.start w.stop)
    (step : Nat) (time : Float) :
    (g.piece (ε := ε) shown step time number).2.Mirrors objects plan := by
  have kept := (piece_regular (ε := ε) mirrors.regular shown step time number).1
  unfold Grid.piece at kept ⊢
  cases found : g.workers[number]? with
  | none => exact mirrors
  | some before =>
    rw [found] at kept
    apply mirrors.onward kept rfl List.length_set
    intro other w there
    by_cases same : number = other
    · subst same
      have inside := (List.getElem?_eq_some_iff.mp found).1
      simp only [List.getElem?_set_self inside, Option.some.injEq] at there
      subst there
      have agreed := agree before found
      refine ⟨before, found, fun kept => (Worker.collect_mirrors kept ?_).1⟩
      rw [← kept.start_eq, ← kept.stop_eq]
      exact agreed
    · simp only [List.getElem?_set_ne same] at there
      exact ⟨w, there, id⟩

theorem collected (mirrors : g.Mirrors objects plan) (agree : Agree objects shown 0 objects.length) :
    (g.collected shown).Mirrors objects plan := by
  apply mirrors.onward (collected_regular mirrors.regular shown).1 rfl (List.length_map _)
  intro number w there
  simp only [Grid.collected, List.getElem?_map] at there
  obtain ⟨before, found, rfl⟩ := Option.map_eq_some_iff.mp there
  exact ⟨before, found, fun kept => (Worker.collect_mirrors kept (mirrors.part agree number)).1⟩

theorem parts (mirrors : g.Mirrors objects plan) :
    g.workers.map (fun w => objects.extract w.start w.stop) =
      (List.range g.workers.length).map (plan.part objects) := by
  apply List.ext_getElem?
  intro number
  by_cases inside : number < g.workers.length
  · have worker := mirrors.workers number _ (List.getElem?_eq_getElem inside)
    simp [inside, worker.start_eq, worker.stop_eq, Partition.part]
  · simp [inside]

end Mirrors

theorem reads_keep {g : Grid ο} (mirrors : g.Mirrors objects plan) (reads : Reads objects g last) :
    last.Mirrors objects plan ∧ last.shape = g.shape := by
  induction reads with
  | none => exact ⟨mirrors, rfl⟩
  | selected reads selected ih =>
    obtain ⟨kept, before⟩ := ih
    obtain ⟨regular, same⟩ := select_regular kept.regular selected
    unfold select at selected
    split at selected
    · cases selected
    · cases selected
      exact ⟨kept.onward regular rfl rfl fun number w there => ⟨w, there, id⟩, same.trans before⟩
  | framed reads agree ih =>
    exact ⟨ih.1.framed agree, (frame_regular ih.1.regular _).2.trans ih.2⟩
  | pieced reads agree step time ih =>
    exact ⟨ih.1.pieced agree step time, (piece_regular ih.1.regular _ step time _).2.trans ih.2⟩
  | collected reads agree ih =>
    exact ⟨ih.1.collected agree, (collected_regular ih.1.regular _).2.trans ih.2⟩

end Grid
end InSitu
