import InSitu.Proofs.Grid.Worker
import InSitu.Proofs.Partition
namespace InSitu

-- A projection that a caller made and used in any way before it became a column.
inductive Buffer.Reached [Scalar α] : Buffer ο α → Prop where
  | made {called : String} {staging : Mode} {a : Accessor ο α} {b : Buffer ο α}
      (made : Buffer.new? called staging a = .ok b) : Reached b
  | forked {b : Buffer ο α} (reached : Reached b) : Reached b.fork
  | refreshed {b : Buffer ο α} (reached : Reached b) (objects : List ο) (first behind : Nat) :
      Reached (Session.refresh objects first behind ⟨b, 0⟩).2.buffer
  | read {b : Buffer ο α} (reached : Reached b) (objects : List ο) (slot : Nat) :
      Reached (Session.readSlot (ε := ProjectionError) objects slot ⟨b, 0⟩).2.buffer

theorem Buffer.reached_dated [Scalar α] {b : Buffer ο α} (reached : b.Reached) :
    b.staging.Dated := by
  induction reached with
  | made made =>
    unfold new? at made
    split at made
    · cases made
      exact Staging.initial_dated _
    · cases made
  | forked reached ih => exact Staging.initial_dated _
  | refreshed reached objects first behind ih =>
    exact Session.refreshes_dated (Session.refresh_sound ..) ih
  | read reached objects slot ih => exact Session.reads_dated (Session.readSlot_sound ..) ih

namespace Grid

def registered (g : Grid ο) : List (Registered ο) := (g.workers.head?.map Worker.registered).getD []

-- What a grid is apart from what it is used for.
structure Shape (ο : Type) where
  name : String
  columns : List (Registered ο)
  staff : Nat

def shape (g : Grid ο) : Shape ο := ⟨g.name, g.registered, g.workers.length⟩

def collected (shown : List ο) (g : Grid ο) : Grid ο :=
  {g with workers := g.workers.map fun w => (w.collect (ε := ExportError) shown g.selected).2}

inductive Moves : Grid ο → Grid ο → Prop where
  | registered {column : Column ο} (reached : column.buffer.Reached)
      (added : g.addColumn attr column = .ok (number, next)) : Moves g next
  | selected {set : Option AttributeSet} (selected : g.select set = .ok next) : Moves g next
  | updated (objects : List ο) : Moves g (g.update objects).2
  | framed (shown : List ο) : Moves g (g.frame (ε := ExportError) shown).2
  | pieced (shown : List ο) (step : Nat) (time : Float) (number : Nat) :
      Moves g (g.piece (ε := ExportError) shown step time number).2
  | collected (shown : List ο) : Moves g (g.collected shown)

inductive Reached : Grid ο → Prop where
  | initial (name : String) (workers : Nat) (mode : Mode) : Reached (.initial name workers mode)
  | moved (reached : Reached g) (moves : Moves g next) : Reached next

structure Regular (g : Grid ο) : Prop where
  staffed : g.workers ≠ []
  shared : ∀ w ∈ g.workers, w.registered = g.registered
  counted : g.registered.length = g.attributes.length
  flagged : g.selected = (List.range g.attributes.length).map (isSelected g.selection)
  dated : ∀ w ∈ g.workers, w.Dated

theorem addAttribute_exact {g : Grid ο} {type : ScalarType} {accessor : Accessor ο type.Carrier}
    (added : g.addAttribute attr type accessor = .ok (number, next)) :
    ∃ positive, g.addColumn attr ⟨type, .initial attr.name g.mode accessor positive⟩ =
      .ok (number, next) := by
  unfold addAttribute Buffer.new? at added
  by_cases positive : 0 < accessor.components
  · rw [dif_pos positive] at added
    exact ⟨positive, added⟩
  · rw [dif_neg positive] at added
    cases added

theorem initial_made (called : String) (staging : Mode) {a : Accessor ο α}
    (positive : 0 < a.components) [Scalar α] : (Buffer.initial called staging a positive).Reached :=
  .made (dif_pos positive)

theorem addAttribute_moves {g : Grid ο} (attr : Attribute) (type : ScalarType)
    (accessor : Accessor ο type.Carrier)
    (added : g.addAttribute attr type accessor = .ok (number, next)) : Moves g next := by
  obtain ⟨positive, added⟩ := addAttribute_exact added
  exact .registered (initial_made ..) added

theorem initial_regular (name : String) (workers : Nat) (mode : Mode) :
    (initial name workers mode : Grid ο).Regular := by
  have columns : ∀ w ∈ (initial name workers mode : Grid ο).workers, w = .initial :=
    fun w member => List.eq_of_mem_replicate member
  have some : (initial name workers mode : Grid ο).workers ≠ [] := by
    simp [initial]
  have empty : (initial name workers mode : Grid ο).registered = [] := by
    obtain ⟨first, others, staff⟩ := List.exists_cons_of_ne_nil some
    have plain := columns first (by simp [staff])
    simp [registered, staff, plain, Worker.initial, Worker.registered]
  refine ⟨some, ?_, congrArg List.length empty, rfl, ?_⟩
  · intro w member
    rw [columns w member, empty]
    rfl
  · intro w member c there
    rw [columns w member] at there
    cases there

theorem forked_exact (run : σ → Worker ο → Outcome ε β × Worker ο) (share : Nat → σ)
    (workers : List (Worker ο)) :
    forked run ((List.range workers.length).map share) workers =
      (workers.mapIdx fun number w => (run (share number) w).1,
        workers.mapIdx fun number w => (run (share number) w).2) := by
  rw [forked, List.unzip_eq_map]
  congr 1 <;> refine List.ext_getElem? fun number => ?_
  all_goals
    by_cases inside : number < workers.length
    · simp [inside]
    · simp [inside]

theorem Regular.planned {g : Grid ο} (regular : g.Regular) (objects : List ο) :
    ∃ plan, Partition.new? objects.length g.workers.length = .ok plan := by
  have some : g.workers.length ≠ 0 := fun none => regular.staffed (List.length_eq_zero_iff.mp none)
  exact ⟨_, if_neg some⟩

theorem joined_each {run : Nat → Worker ο → Outcome ε Unit} {workers : List (Worker ο)} :
    (joinAll crashed (workers.mapIdx run)).map (fun _ => ()) = .ok () ↔
      ∀ number w, workers[number]? = some w → run number w = .ok () := by
  constructor
  · intro joined number w there
    obtain ⟨answers, joined, -⟩ := Outcome.map_answer joined
    have member : run number w ∈ workers.mapIdx run :=
      List.mem_of_getElem? (i := number) (by simp [there])
    obtain ⟨⟨⟩, answered⟩ := joinAll_through.mp ⟨answers, joined⟩ _ member
    exact answered
  · intro each
    have through : ∃ answers, joinAll crashed (workers.mapIdx run) = .ok answers := by
      apply joinAll_through.mpr
      intro outcome member
      obtain ⟨number, inside, rfl⟩ := List.mem_mapIdx.mp member
      exact ⟨(), each number _ (List.getElem?_eq_getElem inside)⟩
    obtain ⟨answers, joined⟩ := through
    rw [joined]
    rfl

theorem refreshAll_exact {g : Grid ο}
    (planned : Partition.new? objects.length g.workers.length = .ok plan) :
    (g.refreshAll objects).2 =
        g.workers.mapIdx (fun number w => (refreshWorker objects (plan.share number) w).2) ∧
      ((g.refreshAll objects).1 = .ok () ↔ ∀ number w, g.workers[number]? = some w →
        (refreshWorker objects (plan.share number) w).1 = .ok ()) := by
  unfold refreshAll
  split
  · rename_i worker staff
    rw [staff] at planned ⊢
    constructor
    · simp [Partition.share_alone planned]
    · rw [← Partition.share_alone planned]
      constructor
      · intro answered number w there
        cases number with
        | zero =>
          cases there
          exact answered
        | succ number => cases there
      · intro each
        exact each 0 worker rfl
  · rw [planned]
    simp only [Partition.planned_shares planned, forked_exact, true_and]
    exact joined_each

theorem Regular.onward {g next : Grid ο} (regular : g.Regular)
    (same : next.workers.map Worker.registered = g.workers.map Worker.registered)
    (dated : ∀ w ∈ next.workers, w.Dated) (name : next.name = g.name)
    (attributes : next.attributes = g.attributes)
    (flagged : next.selected =
      (List.range next.attributes.length).map (isSelected next.selection)) :
    next.Regular ∧ next.shape = g.shape := by
  have first : next.registered = g.registered := by
    unfold registered
    rw [← List.head?_map, ← List.head?_map, same]
  have staffed : next.workers ≠ [] := by
    intro none
    rw [none, List.map_nil, eq_comm, List.map_eq_nil_iff] at same
    exact regular.staffed same
  have staff : next.workers.length = g.workers.length := by
    simpa using congrArg List.length same
  refine ⟨⟨staffed, ?_, ?_, flagged, dated⟩, by rw [shape, name, first, staff, shape]⟩
  · intro w member
    have listed : w.registered ∈ g.workers.map Worker.registered :=
      same ▸ List.mem_map_of_mem member
    obtain ⟨before, there, equal⟩ := List.mem_map.mp listed
    rw [first, ← equal]
    exact regular.shared before there
  · rw [first, attributes]
    exact regular.counted

theorem Regular.sized {g : Grid ο} (regular : g.Regular) (member : w ∈ g.workers) :
    w.columns.length = g.attributes.length := by
  have columns := congrArg List.length (regular.shared w member)
  rw [Worker.registered, List.length_map] at columns
  exact columns.trans regular.counted

-- The first worker gets the column itself and the others a fork, which holds nothing yet.
theorem enlist_each {g : Grid ο} {column : Column ο} (regular : g.Regular) (dated : column.Dated) :
    ∀ w ∈ enlist column g.workers,
      w.registered = g.registered ++ [column.registered] ∧ w.Dated := by
  obtain ⟨first, others, staff⟩ := List.exists_cons_of_ne_nil regular.staffed
  have each : ∀ before ∈ g.workers, ∀ added : Column ο, added.registered = column.registered →
      added.Dated → ∀ w : Worker ο, w = {before with columns := before.columns ++ [added]} →
      w.registered = g.registered ++ [column.registered] ∧ w.Dated := by
    intro before listed added same fresh w grown
    subst grown
    constructor
    · rw [← regular.shared before listed, ← same]
      simp [Worker.registered]
    · intro c there
      rcases List.mem_append.mp there with old | new
      · exact regular.dated before listed c old
      · exact List.eq_of_mem_singleton new ▸ fresh
  intro w member
  rw [staff] at member
  rcases List.mem_cons.mp member with head | member
  · exact each first (by simp [staff]) column rfl dated w head
  · obtain ⟨before, there, grown⟩ := List.mem_map.mp member
    exact each before (by simp [staff, there]) column.fork rfl (Staging.initial_dated _) w grown.symm

theorem addColumn_regular {g : Grid ο} {column : Column ο} (regular : g.Regular)
    (dated : column.Dated) (added : g.addColumn attr column = .ok (number, next)) :
    next.Regular ∧
      next.shape = ⟨g.name, g.registered ++ [column.registered], g.workers.length⟩ := by
  unfold addColumn at added
  split at added
  · cases added
  · split at added
    · cases added
    · cases added
      have whole := enlist_each regular dated
      obtain ⟨first, others, staff⟩ := List.exists_cons_of_ne_nil regular.staffed
      have columns : ({ g with
          attributes := g.attributes ++ [attr], scalarTypes := g.scalarTypes ++ [column.type]
          workers := enlist column g.workers } : Grid ο).registered =
            g.registered ++ [column.registered] := by
        rw [← (whole _ (by rw [staff]; exact List.mem_cons_self)).1, registered, staff]
        rfl
      have size : (enlist column g.workers).length = g.workers.length := by
        rw [staff]
        simp [enlist]
      refine ⟨⟨?_, ?_, ?_, rfl, fun w member => (whole w member).2⟩,
        congr (congrArg (Shape.mk g.name) columns) size⟩
      · show enlist column g.workers ≠ []
        rw [staff]
        exact List.cons_ne_nil _ _
      · intro w member
        exact (whole w member).1.trans columns.symm
      · apply (congrArg List.length columns).trans
        simp [reselected, regular.counted]

theorem select_regular {g : Grid ο} {set : Option AttributeSet} (regular : g.Regular)
    (selected : g.select set = .ok next) : next.Regular ∧ next.shape = g.shape := by
  unfold select at selected
  split at selected
  · cases selected
  · cases selected
    exact regular.onward rfl regular.dated rfl rfl rfl

-- What the workers reached is kept in any case; the count of objects is that of an update that succeeds.
inductive Updates (objects : List ο) (g : Grid ο) : Outcome ExportError Nat × Grid ο → Prop where
  | refreshed (answered : (g.refreshAll objects).1 = .ok ()) :
      Updates objects g
        (.ok objects.length, {g with workers := (g.refreshAll objects).2, tuples := objects.length})
  | failed {failure : Failure ExportError} (failed : (g.refreshAll objects).1 = .error failure) :
      Updates objects g (.error failure, {g with workers := (g.refreshAll objects).2})

theorem update_sound (objects : List ο) (g : Grid ο) : g.Updates objects (g.update objects) := by
  have split : g.refreshAll objects = ((g.refreshAll objects).1, (g.refreshAll objects).2) := rfl
  unfold update
  rw [split]
  cases refreshed : (g.refreshAll objects).1 with
  | error failure => exact .failed refreshed
  | ok done => exact .refreshed refreshed

theorem update_workers {g : Grid ο}
    (planned : Partition.new? objects.length g.workers.length = .ok plan) :
    (g.update objects).2.workers = g.workers.mapIdx fun number w =>
      (w.refresh objects (plan.share number).start (plan.share number).stop).2 := by
  have updates := g.update_sound objects
  have reached := (refreshAll_exact planned).1
  generalize g.update objects = result at updates ⊢
  cases updates <;> exact reached

theorem update_regular {g : Grid ο} (regular : g.Regular) (objects : List ο) :
    (g.update objects).2.Regular ∧ (g.update objects).2.shape = g.shape := by
  obtain ⟨plan, planned⟩ := regular.planned objects
  obtain ⟨reached, -⟩ := refreshAll_exact planned
  have same : (g.refreshAll objects).2.map Worker.registered = g.workers.map Worker.registered := by
    rw [reached]
    apply List.ext_getElem?
    intro number
    simp only [List.getElem?_map, List.getElem?_mapIdx, Option.map_map]
    cases g.workers[number]? with
    | none => rfl
    | some w => exact congrArg some (w.refresh_keeps ..).1
  have dated : ∀ w ∈ (g.refreshAll objects).2, w.Dated := by
    rw [reached]
    intro w member
    obtain ⟨number, inside, rfl⟩ := List.mem_mapIdx.mp member
    exact (Worker.refresh_keeps ..).2 (regular.dated _ (List.getElem_mem inside))
  have updates := g.update_sound objects
  generalize g.update objects = result at updates ⊢
  cases updates <;> exact regular.onward same dated rfl rfl regular.flagged

theorem frame_regular {g : Grid ο} (regular : g.Regular) (shown : List ο) :
    (g.frame (ε := ε) shown).2.Regular ∧ (g.frame (ε := ε) shown).2.shape = g.shape := by
  refine regular.onward ?_ ?_ rfl rfl regular.flagged
  · exact sweep_same fun w member => w.collect_registered shown g.selected
  · exact sweep_keeps (fun w _ dated => Worker.collect_dated dated shown g.selected) regular.dated

theorem piece_regular {g : Grid ο} (regular : g.Regular) (shown : List ο) (step : Nat)
    (time : Float) (number : Nat) :
    (g.piece (ε := ε) shown step time number).2.Regular ∧
      (g.piece (ε := ε) shown step time number).2.shape = g.shape := by
  unfold piece
  cases there : g.workers[number]? with
  | none => exact ⟨regular, rfl⟩
  | some w =>
    have member := List.mem_of_getElem? there
    refine regular.onward ?_ ?_ rfl rfl regular.flagged
    · apply List.ext_getElem?
      intro other
      by_cases same : number = other
      · subst same
        have kept := w.collect_registered (ε := ε) shown g.selected
        simp only [List.getElem?_map, List.getElem?_set_self', there, Option.map_some]
        exact congrArg some kept
      · simp [same]
    · intro other there
      rcases List.mem_or_eq_of_mem_set there with kept | rfl
      · exact regular.dated other kept
      · exact Worker.collect_dated (regular.dated w member) shown g.selected

theorem collected_regular {g : Grid ο} (regular : g.Regular) (shown : List ο) :
    (g.collected shown).Regular ∧ (g.collected shown).shape = g.shape := by
  refine regular.onward ?_ ?_ rfl rfl regular.flagged
  · simp only [collected, List.map_map]
    exact List.map_congr_left fun w member => w.collect_registered shown g.selected
  · intro w member
    obtain ⟨before, there, rfl⟩ := List.mem_map.mp member
    exact Worker.collect_dated (regular.dated before there) shown g.selected

theorem moves_regular {g next : Grid ο} (regular : g.Regular) (moves : Moves g next) :
    next.Regular ∧ next.name = g.name ∧ next.workers.length = g.workers.length := by
  have same : ∀ {after : Grid ο}, after.Regular ∧ after.shape = g.shape →
      after.Regular ∧ after.name = g.name ∧ after.workers.length = g.workers.length :=
    fun kept => ⟨kept.1, congrArg Shape.name kept.2, congrArg Shape.staff kept.2⟩
  cases moves with
  | registered reached added =>
    obtain ⟨kept, shape⟩ := addColumn_regular regular (Buffer.reached_dated reached) added
    exact ⟨kept, congrArg Shape.name shape, congrArg Shape.staff shape⟩
  | selected selected => exact same (select_regular regular selected)
  | updated objects => exact same (update_regular regular objects)
  | framed shown => exact same (frame_regular regular shown)
  | pieced shown step time number => exact same (piece_regular regular shown step time number)
  | collected shown => exact same (collected_regular regular shown)

theorem reached_regular {g : Grid ο} (reached : Reached g) : g.Regular := by
  induction reached with
  | initial name workers mode => exact initial_regular name workers mode
  | moved reached moves ih => exact (moves_regular ih moves).1

end Grid
end InSitu
