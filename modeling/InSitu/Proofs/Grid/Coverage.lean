import InSitu.Proofs.Grid.Registry
import Mathlib.Algebra.BigOperators.Ring.List
namespace InSitu

theorem Buffer.initial_mirrors {called : String} {staging : Mode} {a : Accessor ο α}
    (positive : 0 < a.components) (objects : List ο) :
    (initial called staging a positive).Mirrors objects := by
  have none : (initial called staging a positive).size = 0 := Nat.mul_zero _
  refine ⟨Nat.zero_le _, ?_, Staging.initial_dated staging, ?_, ?_⟩
  · rw [none]
    cases staging <;> trivial
  · intro slot inside
    exact absurd (none ▸ inside) (Nat.not_lt_zero slot)
  · intro copy slot inside
    exact absurd (none ▸ inside) (Nat.not_lt_zero slot)

theorem Partition.part_length {size staff : Nat} (planned : new? size staff = .ok p)
    {objects : List ο} (sized : objects.length = size) (number : Nat) :
    (p.part objects number).length = (p.share number).stop - (p.share number).start := by
  have within := (planned_within planned number).2
  rw [part, List.extract_eq_take_drop, List.length_take, List.length_drop, sized,
    Nat.min_eq_left (Nat.sub_le_sub_right within _)]

theorem Partition.shares_sum {size staff : Nat} (planned : new? size staff = .ok p) :
    ((List.range staff).map fun number => (p.share number).stop - (p.share number).start).sum =
      size := by
  have sized : (List.replicate size ()).length = size := List.length_replicate
  have whole : (List.range staff).flatMap (p.part (List.replicate size ())) =
      List.replicate size () := parts_whole (sized.symm ▸ planned)
  have lengths := congrArg List.length whole
  rw [List.length_flatMap, sized] at lengths
  rw [← List.map_congr_left fun number _ => part_length planned sized number]
  exact lengths

namespace Column

theorem fork_mirrors (c : Column ο) (objects : List ο) : c.fork.Mirrors objects ⟨0, 0⟩ :=
  ⟨rfl, rfl, Buffer.initial_mirrors _ objects⟩

theorem Mirrors.size {c : Column ο} (mirrors : c.Mirrors objects share) :
    c.size = c.registered.accessor.components * (share.stop - share.start) := by
  rw [← mirrors.start_eq, ← mirrors.stop_eq]
  rfl

end Column

structure Worker.Covers (objects : List ο) (share : Range) (covered : Nat) (w : Worker ο) : Prop where
  start_eq : w.start = share.start
  stop_eq : w.stop = share.stop
  columns : ∀ (place : Nat) c, w.columns[place]? = some c →
    c.Mirrors objects (if place < covered then share else ⟨0, 0⟩)

namespace Grid

structure Covers (objects : List ο) (plan : Partition) (covered : Nat) (g : Grid ο) : Prop where
  regular : g.Regular
  planned : Partition.new? objects.length g.workers.length = .ok plan
  tuples_eq : g.tuples = objects.length
  within : covered ≤ g.attributes.length
  workers : ∀ number (w : Worker ο), g.workers[number]? = some w →
    w.Covers objects (plan.share number) covered

-- Registrations, selections and updates that went through, and reads of the updated objects: with these
-- objects, and with how many columns there were at the update.
inductive Course {ο : Type} : List ο → Nat → Grid ο → Prop where
  | initial (called : String) (workers : Nat) (mode : Mode) :
      Course [] 0 (.initial called workers mode)
  | registered (course : Course objects covered g) (attr : Attribute) (type : ScalarType)
      (accessor : Accessor ο type.Carrier)
      (added : g.addAttribute attr type accessor = .ok (number, next)) : Course objects covered next
  | selected (course : Course objects covered g) (selection : Option AttributeSet)
      (selected : g.select selection = .ok next) : Course objects covered next
  | updated (course : Course before covered g) (objects : List ο)
      (answered : (g.update objects).1 = .ok count) :
      Course objects g.attributes.length (g.update objects).2
  | pieced (course : Course objects covered g) (step : Nat) (time : Float) (number : Nat) :
      Course objects covered (g.piece (ε := ExportError) objects step time number).2
  | framed (course : Course objects covered g) :
      Course objects covered (g.frame (ε := ExportError) objects).2

theorem enlist_place (column : Column ο) (workers : List (Worker ο)) (number : Nat) :
    (enlist column workers)[number]? = workers[number]?.map fun w =>
      {w with columns := w.columns ++ [if number = 0 then column else column.fork]} := by
  cases workers with
  | nil => rfl
  | cons first others =>
    cases number with
    | zero => rfl
    | succ number => simp [enlist]

theorem collect_covers {w : Worker ο} (covers : w.Covers objects share covered) (flags : List Bool) :
    (w.collect (ε := ε) objects flags).2.Covers objects share covered := by
  refine ⟨covers.start_eq, covers.stop_eq, ?_⟩
  intro place c there
  rcases w.collect_place (ε := ε) objects flags place with left | read
  · exact covers.columns place c (left.symm.trans there)
  · obtain ⟨before, found, rfl⟩ := Option.map_eq_some_iff.mp (read.symm.trans there)
    exact (Column.append_mirrors (covers.columns place before found) (.same objects)).1

theorem initial_covers (called : String) (workers : Nat) (mode : Mode) :
    ∃ plan, (initial called workers mode : Grid ο).Covers [] plan 0 := by
  have regular := initial_regular (ο := ο) called workers mode
  obtain ⟨plan, planned⟩ := regular.planned []
  refine ⟨plan, regular, planned, rfl, Nat.zero_le _, ?_⟩
  intro number w there
  have plain : w = .initial := List.eq_of_mem_replicate (List.mem_of_getElem? there)
  obtain ⟨ordered, within⟩ := Partition.planned_within planned number
  rw [List.length_nil] at within
  subst plain
  refine ⟨?_, ?_, fun place c found => by cases found⟩
  · show 0 = _
    omega
  · show 0 = _
    omega

theorem registered_covers {g : Grid ο} {accessor : Accessor ο type.Carrier}
    (covers : g.Covers objects plan covered)
    (added : g.addAttribute attr type accessor = .ok (number, next)) :
    next.Covers objects plan covered := by
  have moves := addAttribute_moves attr type accessor added
  obtain ⟨regular, -, staff⟩ := moves_regular covers.regular moves
  obtain ⟨positive, added⟩ := addAttribute_exact added
  have fresh : (⟨type, .initial attr.name g.mode accessor positive⟩ : Column ο).Mirrors objects
      ⟨0, 0⟩ := ⟨rfl, rfl, Buffer.initial_mirrors positive objects⟩
  obtain ⟨-, -, -, rfl⟩ := addColumn_exact added
  refine ⟨regular, staff ▸ covers.planned, covers.tuples_eq, ?_, ?_⟩
  · exact Nat.le_trans covers.within (by simp [reselected])
  · intro number w there
    obtain ⟨before, found, rfl⟩ := Option.map_eq_some_iff.mp ((enlist_place ..).symm.trans there)
    have worker := covers.workers number before found
    refine ⟨worker.start_eq, worker.stop_eq, ?_⟩
    intro place c column
    by_cases old : place < before.columns.length
    · exact worker.columns place c ((List.getElem?_append_left old).symm.trans column)
    · -- The new column stands behind all that were covered.
      have size := covers.regular.sized (List.mem_of_getElem? found)
      have behind : ¬ place < covered := fun below =>
        old (size ▸ Nat.lt_of_lt_of_le below covers.within)
      rw [List.getElem?_append_right (Nat.not_lt.mp old), List.getElem?_singleton] at column
      split at column
      · cases column
        rw [if_neg behind]
        split
        · exact fresh
        · exact Column.fork_mirrors _ objects
      · cases column

theorem selected_covers {g : Grid ο} {selection : Option AttributeSet}
    (covers : g.Covers objects plan covered) (selected : g.select selection = .ok next) :
    next.Covers objects plan covered := by
  have regular := (select_regular covers.regular selected).1
  obtain ⟨-, rfl⟩ := select_exact selected
  exact ⟨regular, covers.planned, covers.tuples_eq, covers.within, covers.workers⟩

theorem updated_covers {g : Grid ο} (regular : g.Regular)
    (answered : (g.update objects).1 = .ok count) :
    ∃ plan, (g.update objects).2.Covers objects plan g.attributes.length := by
  obtain ⟨plan, planned⟩ := regular.planned objects
  have mirrors := (update_mirrors regular planned answered).2
  have attributes : (g.update objects).2.attributes = g.attributes :=
    congrArg Registry.attributes (g.update_registry objects)
  refine ⟨plan, mirrors.regular, mirrors.planned, mirrors.tuples_eq, Nat.le_of_eq ?_, ?_⟩
  · rw [attributes]
  · intro number w there
    have worker := mirrors.workers number w there
    refine ⟨worker.start_eq, worker.stop_eq, ?_⟩
    intro place c column
    have inside : place < g.attributes.length := by
      rw [← attributes, ← mirrors.regular.sized (List.mem_of_getElem? there)]
      exact (List.getElem?_eq_some_iff.mp column).1
    rw [if_pos inside]
    exact worker.columns c (List.mem_of_getElem? column)

theorem Covers.onward {g next : Grid ο} (covers : g.Covers objects plan covered)
    (kept : next.Regular ∧ next.shape = g.shape) (tuples : next.tuples = g.tuples)
    (attributes : next.attributes = g.attributes)
    (workers : ∀ number : Nat, next.workers[number]? = g.workers[number]? ∨
      next.workers[number]? =
        g.workers[number]?.map fun w => (w.collect (ε := ε) objects g.selected).2) :
    next.Covers objects plan covered := by
  have staff : next.workers.length = g.workers.length := congrArg Shape.staff kept.2
  refine ⟨kept.1, staff ▸ covers.planned, tuples.trans covers.tuples_eq,
    attributes ▸ covers.within, ?_⟩
  intro number w there
  rcases workers number with left | read
  · exact covers.workers number w (left.symm.trans there)
  · obtain ⟨before, found, rfl⟩ := Option.map_eq_some_iff.mp (read.symm.trans there)
    exact collect_covers (covers.workers number before found) g.selected

theorem framed_covers {g : Grid ο} (covers : g.Covers objects plan covered) :
    (g.frame (ε := ε) objects).2.Covers objects plan covered :=
  covers.onward (ε := ε) (frame_regular covers.regular objects) rfl rfl
    (sweep_place (Worker.collect (ε := ε) objects g.selected) g.workers)

theorem pieced_covers {g : Grid ο} (covers : g.Covers objects plan covered) (step : Nat)
    (time : Float) (number : Nat) :
    (g.piece (ε := ε) objects step time number).2.Covers objects plan covered := by
  have kept := piece_regular (ε := ε) covers.regular objects step time number
  unfold piece at kept ⊢
  cases found : g.workers[number]? with
  | none => exact covers
  | some w =>
    rw [found] at kept
    refine covers.onward (ε := ε) kept rfl rfl ?_
    intro other
    by_cases same : number = other
    · subst same
      have inside := (List.getElem?_eq_some_iff.mp found).1
      refine .inr ?_
      show (g.workers.set number _)[number]? = _
      rw [List.getElem?_set_self inside, found]
      rfl
    · exact .inl (List.getElem?_set_ne same)

theorem course_covers {g : Grid ο} (course : Course objects covered g) :
    ∃ plan, g.Covers objects plan covered := by
  induction course with
  | initial called workers mode => exact initial_covers called workers mode
  | registered course attr type accessor added ih =>
    obtain ⟨plan, covers⟩ := ih
    exact ⟨plan, registered_covers covers added⟩
  | selected course selection selected ih =>
    obtain ⟨plan, covers⟩ := ih
    exact ⟨plan, selected_covers covers selected⟩
  | updated course objects answered ih =>
    obtain ⟨plan, covers⟩ := ih
    exact updated_covers covers.regular answered
  | pieced course step time number ih =>
    obtain ⟨plan, covers⟩ := ih
    exact ⟨plan, pieced_covers covers step time number⟩
  | framed course ih =>
    obtain ⟨plan, covers⟩ := ih
    exact ⟨plan, framed_covers covers⟩

theorem registered_positive {g : Grid ο} (regular : g.Regular) (member : r ∈ g.registered) :
    0 < r.accessor.components := by
  obtain ⟨first, others, staff⟩ := List.exists_cons_of_ne_nil regular.staffed
  rw [← regular.shared first (by simp [staff])] at member
  obtain ⟨c, -, rfl⟩ := List.mem_map.mp member
  exact c.buffer.components_pos

theorem worker_extent {w : Worker ο} (covers : w.Covers objects share covered)
    (there : w.registered[place]? = some r) : w.extent place =
      if place < covered then r.accessor.components * (share.stop - share.start) else 0 := by
  rw [Worker.registered, List.getElem?_map] at there
  obtain ⟨c, found, rfl⟩ := Option.map_eq_some_iff.mp there
  have size := (covers.columns place c found).size
  rw [Worker.extent, found, Option.map_some, Option.getD_some, size]
  split <;> rfl

theorem frame_extent {g : Grid ο} (covers : g.Covers objects plan covered)
    (there : g.registered[place]? = some r) : (g.workers.map (·.extent place)).sum =
      if place < covered then r.accessor.components * objects.length else 0 := by
  have each : g.workers.map (·.extent place) = (List.range g.workers.length).map fun number =>
      if place < covered then
        r.accessor.components * ((plan.share number).stop - (plan.share number).start)
      else 0 := by
    apply List.ext_getElem?
    intro number
    by_cases inside : number < g.workers.length
    · have found := List.getElem?_eq_getElem inside
      have shared := covers.regular.shared _ (List.getElem_mem inside)
      have extent := worker_extent (covers.workers number _ found) (shared ▸ there)
      simp [inside, extent]
    · simp [inside]
  rw [each]
  split
  · rw [List.sum_map_mul_left, Partition.shares_sum covers.planned]
  · simp

def Shaped (tuples : Nat) (columns : List PieceColumn) : Prop :=
  ∀ c ∈ columns, c.values.length = c.components * tuples

def Covered (covered : Nat) (g : Grid ο) : Prop :=
  ∀ number : Nat, g.selected[number]? = some true → number < covered

theorem shaped_covered {g : Grid ο} (regular : g.Regular) {columns : List PieceColumn}
    {tuples : Nat} {extent : Nat → Nat} (outlined : columns.map PieceColumn.outline =
      g.exported.map fun column => (column.1.label, extent column.2))
    (extents : ∀ (place : Nat) r, g.registered[place]? = some r →
      extent place = if place < covered then r.accessor.components * tuples else 0) :
    Shaped tuples columns ↔ tuples = 0 ∨ g.Covered covered := by
  have outlines : Shaped tuples columns ↔
      ∀ outline ∈ columns.map PieceColumn.outline, outline.2 = outline.1.components * tuples := by
    rw [List.forall_mem_map]
    rfl
  rw [outlines, outlined, List.forall_mem_map]
  have sized : ∀ (place : Nat) r, g.registered[place]? = some r →
      (extent place = r.accessor.components * tuples ↔ tuples = 0 ∨ place < covered) := by
    intro place r there
    have positive := registered_positive regular (List.mem_of_getElem? there)
    rw [extents place r there]
    by_cases below : place < covered
    · simp [below]
    · simp [below, eq_comm, Nat.pos_iff_ne_zero.mp positive]
  constructor
  · intro shaped
    by_contra neither
    rw [not_or] at neither
    refine neither.2 fun place on => ?_
    have inside : place < g.registered.length := regular.counted ▸ (regular.selects.mp on).1
    have there := List.getElem?_eq_getElem inside
    exact ((sized place _ there).mp (shaped _ (exported_member.mpr ⟨there, on⟩))).resolve_left
      neither.1
  · rintro either ⟨r, place⟩ member
    obtain ⟨there, on⟩ := exported_member.mp member
    exact (sized place r there).mpr (either.imp_right fun covered => covered place on)

-- Over the objects of the last update: a piece and a frame give each column one tuple for each object
-- that they say there is, if and only if there is none or no column is selected that was registered since
-- the update. Both are answered if the objects show enough.
theorem columns_shaped {g : Grid ο} (course : Course objects covered g) :
    g.tuples = objects.length ∧
    (∀ step time number given,
      (g.piece (ε := ExportError) objects step time number).1 = .ok given →
      (Shaped (given.stop - given.start) given.columns ↔
        given.stop - given.start = 0 ∨ g.Covered covered)) ∧
    (∀ given, (g.frame (ε := ExportError) objects).1 = .ok given →
      (Shaped given.tuples given.columns ↔ given.tuples = 0 ∨ g.Covered covered)) ∧
    ((∀ r ∈ g.registered, ∀ object ∈ objects, r.accessor.Shows object) →
      (∀ step time, ∀ number < g.workers.length, ∃ given,
        (g.piece (ε := ExportError) objects step time number).1 = .ok given) ∧
      ∃ given, (g.frame (ε := ExportError) objects).1 = .ok given) := by
  obtain ⟨plan, covers⟩ := course_covers course
  have regular := covers.regular
  refine ⟨covers.tuples_eq, ?_, ?_, ?_⟩
  · intro step time number given answered
    obtain ⟨w, there, start, stop, outlined⟩ := piece_outlines regular answered
    have worker := covers.workers number w there
    rw [start, stop, worker.start_eq, worker.stop_eq]
    apply shaped_covered regular outlined
    intro place r column
    exact worker_extent worker (regular.shared w (List.mem_of_getElem? there) ▸ column)
  · intro given answered
    obtain ⟨tuples, outlined⟩ := frame_outlines regular answered
    rw [tuples, covers.tuples_eq]
    exact shaped_covered regular outlined fun place r column => frame_extent covers column
  · intro enough
    have each : ∀ w ∈ g.workers, ∀ c ∈ w.columns, ∃ values,
        (c.append (ε := ExportError) objects []).1 = .ok values := by
      intro w member c listed
      obtain ⟨number, there⟩ := List.mem_iff_getElem?.mp member
      obtain ⟨place, column⟩ := List.mem_iff_getElem?.mp listed
      have known : c.registered ∈ g.registered :=
        regular.shared w member ▸ List.mem_map_of_mem listed
      exact Column.append_answer ((covers.workers number w there).columns place c column)
        (enough _ known)
    exact ⟨fun step time number inside => piece_answers inside step time each, frame_answers each⟩

-- A column is registered after the update and left out of the selection. The second of two workers has
-- the last of three pairs.
theorem columns_shaped_pairs : ∃ (g : Grid (UInt64 × UInt64)) (given : Piece),
    Course [(1, 2), (3, 4), (5, 6)] 1 g ∧ g.attributes.length = 2 ∧
    (g.piece (ε := ExportError) [(1, 2), (3, 4), (5, 6)] 0 0 1).1 = .ok given ∧
    given.stop - given.start = 1 ∧ Shaped 1 given.columns := by
  have made := (Course.initial "cells" 2 .copy).registered ⟨"pair", .vector 2, none⟩ .u64
    Accessor.halves rfl
  have updated := made.updated [(1, 2), (3, 4), (5, 6)] rfl
  have late := updated.registered ⟨"late", .vector 2, none⟩ .u64 Accessor.halves rfl
  have course := late.selected (some (.ofList [0])) rfl
  obtain ⟨-, pieces, -, -⟩ := columns_shaped course
  refine ⟨_, _, course, rfl, rfl, rfl, (pieces 0 0 1 _ rfl).mpr (.inr ?_)⟩
  intro number selected
  match number with
  | 0 => exact Nat.zero_lt_one
  | 1 => cases selected
  | number + 2 => cases selected

-- A column that is registered between an update and a read has no values beside two objects.
theorem columns_unshaped_late : ∃ (g : Grid Float) (piece : Piece) (frame : FrameGrid),
    ((initial "cells" 1 .copy : Grid Float).update [1.5, 2.5]).1 = .ok 2 ∧
    ((initial "cells" 1 .copy : Grid Float).update [1.5, 2.5]).2.addAttribute ⟨"diameter", .scalar, none⟩ .f64
      ⟨1, fun object => [object]⟩ = .ok (0, g) ∧
    (g.piece (ε := ExportError) [1.5, 2.5] 0 0 0).1 = .ok piece ∧
    (g.frame (ε := ExportError) [1.5, 2.5]).1 = .ok frame ∧
    piece.start = 0 ∧ piece.stop = 2 ∧ frame.tuples = 2 ∧
    piece.columns = [⟨"diameter", 1, "f64", []⟩] ∧ frame.columns = [⟨"diameter", 1, "f64", []⟩] ∧
    ¬ Shaped (piece.stop - piece.start) piece.columns ∧ ¬ Shaped frame.tuples frame.columns := by
  refine ⟨_, _, _, rfl, rfl, rfl, rfl, rfl, rfl, rfl, rfl, rfl, ?_, ?_⟩
  · intro shaped
    exact absurd (shaped _ List.mem_cons_self) (by decide)
  · intro shaped
    exact absurd (shaped _ List.mem_cons_self) (by decide)

end Grid
end InSitu
