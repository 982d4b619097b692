import InSitu.Proofs.AttributeSet.Membership
import InSitu.Proofs.Grid.Outline
namespace InSitu.Grid

theorem unknown_none {set : AttributeSet} {columns : Nat} : unknown? set columns = none ↔
    ∀ number, set.contains number = true → number < columns := by
  simp only [unknown?, AttributeSet.next_none, AttributeSet.difference_contains,
    AttributeSet.first_contains]
  refine forall_congr' fun number => ?_
  cases set.contains number <;> simp

theorem addColumn_exact {g next : Grid ο} {column : Column ο}
    (added : g.addColumn attr column = .ok (number, next)) :
    (∀ other ∈ g.attributes, other.name ≠ attr.name) ∧
      column.components = attr.kind.components ∧ number = g.attributes.length ∧
      next = { g with
        attributes := g.attributes ++ [attr]
        scalarTypes := g.scalarTypes ++ [column.type]
        workers := enlist column g.workers }.reselected := by
  unfold addColumn at added
  split at added
  · cases added
  · rename_i fresh
    split at added
    · cases added
    · rename_i alike
      cases added
      refine ⟨?_, Decidable.of_not_not alike, rfl, rfl⟩
      intro other member same
      exact fresh (List.any_eq_true.mpr ⟨other, member, decide_eq_true same⟩)

theorem select_exact {g next : Grid ο} {selection : Option AttributeSet}
    (selected : g.select selection = .ok next) :
    (∀ set, selection = some set → ∀ number, set.contains number = true →
      number < g.attributes.length) ∧ next = {g with selection}.reselected := by
  unfold select at selected
  split at selected
  · cases selected
  · rename_i known
    cases selected
    refine ⟨?_, rfl⟩
    rintro set rfl
    exact unknown_none.mp known

structure Registry where
  mode : Mode
  attributes : List Attribute
  scalarTypes : List ScalarType
  selection : Option AttributeSet
  selected : List Bool

def registry (g : Grid ο) : Registry :=
  ⟨g.mode, g.attributes, g.scalarTypes, g.selection, g.selected⟩

theorem update_registry (objects : List ο) (g : Grid ο) :
    (g.update objects).2.registry = g.registry := by
  have updates := g.update_sound objects
  generalize g.update objects = result at updates ⊢
  cases updates <;> rfl

theorem piece_registry (shown : List ο) (step : Nat) (time : Float) (number : Nat) (g : Grid ο) :
    (g.piece (ε := ε) shown step time number).2.registry = g.registry := by
  unfold piece
  cases g.workers[number]? <;> rfl

structure Enrolled (g : Grid ο) : Prop where
  regular : g.Regular
  types : g.scalarTypes = g.registered.map (·.type)
  components : g.attributes.map (·.kind.components) = g.registered.map (·.accessor.components)
  distinct : (g.attributes.map (·.name)).Nodup
  within : ∀ set, g.selection = some set → ∀ number, set.contains number = true →
    number < g.attributes.length

theorem initial_enrolled (called : String) (workers : Nat) (mode : Mode) :
    (initial called workers mode : Grid ο).Enrolled := by
  have regular := initial_regular (ο := ο) called workers mode
  have none : (initial called workers mode : Grid ο).registered = [] :=
    List.length_eq_zero_iff.mp regular.counted
  exact ⟨regular, by rw [none]; rfl, by rw [none]; rfl, .nil, nofun⟩

theorem addColumn_enrolled {g : Grid ο} {column : Column ο} (enrolled : g.Enrolled)
    (dated : column.Dated) (added : g.addColumn attr column = .ok (number, next)) :
    next.Enrolled := by
  obtain ⟨regular, shape⟩ := addColumn_regular enrolled.regular dated added
  have columns : next.registered = g.registered ++ [column.registered] :=
    congrArg Shape.columns shape
  obtain ⟨fresh, alike, -, rfl⟩ := addColumn_exact added
  refine ⟨regular, ?_, ?_, ?_, ?_⟩
  · rw [columns, List.map_append, ← enrolled.types]
    rfl
  · rw [columns, List.map_append, ← enrolled.components]
    show (g.attributes ++ [attr]).map _ = _
    rw [List.map_append, List.map_singleton, ← alike]
    rfl
  · show ((g.attributes ++ [attr]).map (·.name)).Nodup
    rw [List.map_append, List.nodup_append]
    refine ⟨enrolled.distinct, by simp, ?_⟩
    intro name old other new same
    obtain ⟨before, there, rfl⟩ := List.mem_map.mp old
    cases List.mem_singleton.mp new
    exact fresh before there same
  · intro set selection number contained
    have below := enrolled.within set selection number contained
    show number < (g.attributes ++ [attr]).length
    rw [List.length_append]
    omega

theorem select_enrolled {g : Grid ο} {selection : Option AttributeSet} (enrolled : g.Enrolled)
    (selected : g.select selection = .ok next) : next.Enrolled := by
  obtain ⟨regular, shape⟩ := select_regular enrolled.regular selected
  have columns : next.registered = g.registered := congrArg Shape.columns shape
  obtain ⟨within, rfl⟩ := select_exact selected
  exact ⟨regular, columns ▸ enrolled.types, columns ▸ enrolled.components, enrolled.distinct,
    within⟩

theorem Enrolled.onward {g next : Grid ο} (enrolled : g.Enrolled)
    (kept : next.Regular ∧ next.shape = g.shape) (same : next.registry = g.registry) :
    next.Enrolled := by
  obtain ⟨regular, shape⟩ := kept
  have columns : next.registered = g.registered := congrArg Shape.columns shape
  have attributes : next.attributes = g.attributes := congrArg Registry.attributes same
  have types : next.scalarTypes = g.scalarTypes := congrArg Registry.scalarTypes same
  have selection : next.selection = g.selection := congrArg Registry.selection same
  refine ⟨regular, ?_, ?_, ?_, ?_⟩
  · rw [types, columns]
    exact enrolled.types
  · rw [attributes, columns]
    exact enrolled.components
  · rw [attributes]
    exact enrolled.distinct
  · rw [selection, attributes]
    exact enrolled.within

theorem moves_enrolled {g next : Grid ο} (enrolled : g.Enrolled) (moves : Moves g next) :
    next.Enrolled := by
  have regular := enrolled.regular
  cases moves with
  | registered reached added =>
    exact addColumn_enrolled enrolled (Buffer.reached_dated reached) added
  | selected selected => exact select_enrolled enrolled selected
  | updated objects => exact enrolled.onward (update_regular regular objects) (g.update_registry _)
  | framed shown => exact enrolled.onward (frame_regular regular shown) rfl
  | pieced shown step time number =>
    exact enrolled.onward (piece_regular regular shown step time number) (piece_registry ..)
  | collected shown => exact enrolled.onward (collected_regular regular shown) rfl

theorem reached_enrolled {g : Grid ο} (reached : Reached g) : g.Enrolled := by
  induction reached with
  | initial called workers mode => exact initial_enrolled called workers mode
  | moved reached moves ih => exact moves_enrolled ih moves

theorem Enrolled.counted {g : Grid ο} (enrolled : g.Enrolled) :
    g.scalarTypes.length = g.attributes.length ∧ g.selected.length = g.attributes.length := by
  have columns := enrolled.regular.counted
  constructor
  · rw [enrolled.types, List.length_map, columns]
  · rw [enrolled.regular.flagged, List.length_map, List.length_range]

-- What came first stays where it is, and what is added stands behind it.
structure Extends (g next : Grid ο) : Prop where
  name : next.name = g.name
  staff : next.workers.length = g.workers.length
  attributes : g.attributes <+: next.attributes
  types : g.scalarTypes <+: next.scalarTypes
  columns : g.registered <+: next.registered

theorem Extends.same : Extends g g :=
  ⟨rfl, rfl, List.prefix_refl _, List.prefix_refl _, List.prefix_refl _⟩

theorem Extends.trans (before : Extends g between) (after : Extends between next) : Extends g next :=
  ⟨after.name.trans before.name, after.staff.trans before.staff,
    before.attributes.trans after.attributes, before.types.trans after.types,
    before.columns.trans after.columns⟩

theorem extends_shape {g next : Grid ο} (shape : next.shape = g.shape)
    (attributes : next.attributes = g.attributes) (types : next.scalarTypes = g.scalarTypes) :
    Extends g next := by
  have columns : next.registered = g.registered := congrArg Shape.columns shape
  exact ⟨congrArg Shape.name shape, congrArg Shape.staff shape, attributes ▸ List.prefix_refl _,
    types ▸ List.prefix_refl _, columns ▸ List.prefix_refl _⟩

theorem moves_extends {g next : Grid ο} (regular : g.Regular) (moves : Moves g next) :
    Extends g next := by
  cases moves with
  | registered reached added =>
    obtain ⟨-, shape⟩ := addColumn_regular regular (Buffer.reached_dated reached) added
    have columns : next.registered = g.registered ++ [_] := congrArg Shape.columns shape
    have staff : next.workers.length = g.workers.length := congrArg Shape.staff shape
    obtain ⟨-, -, -, rfl⟩ := addColumn_exact added
    exact ⟨rfl, staff, ⟨_, rfl⟩, ⟨_, rfl⟩, ⟨_, columns.symm⟩⟩
  | selected selected =>
    obtain ⟨-, shape⟩ := select_regular regular selected
    obtain ⟨-, rfl⟩ := select_exact selected
    exact extends_shape shape rfl rfl
  | updated objects =>
    have same := g.update_registry objects
    exact extends_shape (update_regular regular objects).2 (congrArg Registry.attributes same)
      (congrArg Registry.scalarTypes same)
  | framed shown => exact extends_shape (frame_regular regular shown).2 rfl rfl
  | pieced shown step time number =>
    have same := piece_registry (ε := ExportError) shown step time number g
    exact extends_shape (piece_regular regular shown step time number).2
      (congrArg Registry.attributes same) (congrArg Registry.scalarTypes same)
  | collected shown => exact extends_shape (collected_regular regular shown).2 rfl rfl

-- A set that was chosen names no column that was to come.
theorem Extends.flags {g next : Grid ο} (grown : Extends g next) (enrolled : g.Enrolled)
    (later : next.Regular) (same : next.selection = g.selection) (some : g.selection ≠ none) :
    ∃ others, next.selected = g.selected ++ others ∧ ∀ on ∈ others, on = false := by
  obtain ⟨added, attributes⟩ := grown.attributes
  refine ⟨((List.range added.length).map (g.attributes.length + ·)).map (isSelected g.selection),
    ?_, ?_⟩
  · rw [later.flagged, same, ← attributes, List.length_append, List.range_add, List.map_append,
      enrolled.regular.flagged]
  · intro on member
    rw [List.map_map] at member
    obtain ⟨place, -, rfl⟩ := List.mem_map.mp member
    obtain ⟨set, selection⟩ := Option.ne_none_iff_exists'.mp some
    rw [selection]
    show set.contains (g.attributes.length + place) = false
    by_contra contained
    have below := enrolled.within set selection _ (Bool.not_eq_false _ ▸ contained)
    omega

theorem Extends.exports {g next : Grid ο} (grown : Extends g next) (enrolled : g.Enrolled)
    (later : next.Regular) (same : next.selection = g.selection) (some : g.selection ≠ none) :
    next.chosen = g.chosen ∧ next.info = g.info := by
  obtain ⟨others, flags, off⟩ := grown.flags enrolled later same some
  obtain ⟨typed, sized⟩ := enrolled.counted
  obtain ⟨columns, registered⟩ := grown.columns
  obtain ⟨added, attributes⟩ := grown.attributes
  obtain ⟨more, types⟩ := grown.types
  have selected : g.registered.length = g.selected.length :=
    enrolled.regular.counted.trans sized.symm
  constructor
  · rw [← later.chosen_eq, ← enrolled.regular.chosen_eq, flags, ← registered]
    exact flagged_append selected off
  · have infos : next.info.attributes = g.info.attributes := by
      have placed : g.described.length = g.selected.length := by simp [described, typed, sized]
      rw [info_described, info_described, flags, described, ← attributes, ← types,
        List.zip_append typed.symm, List.map_append]
      exact flagged_append placed off
    show GridInfo.mk next.name next.workers.length next.info.attributes = _
    rw [grown.name, grown.staff, infos]
    rfl

end InSitu.Grid
