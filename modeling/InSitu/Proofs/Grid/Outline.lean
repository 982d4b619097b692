import InSitu.Proofs.Grid.Output
import Mathlib.Algebra.GroupWithZero.Nat
namespace InSitu

def flagged (entries : List α) (flags : List Bool) : List α :=
  (entries.zip flags).filterMap fun (entry, on) => if on then some entry else none

theorem flagged_cons (entry : α) (entries : List α) (on : Bool) (flags : List Bool) :
    flagged (entry :: entries) (on :: flags) =
      if on then entry :: flagged entries flags else flagged entries flags := by
  cases on <;> rfl

theorem flagged_map (f : α → β) (entries : List α) (flags : List Bool) :
    flagged (entries.map f) flags = (flagged entries flags).map f := by
  induction entries generalizing flags with
  | nil => rfl
  | cons entry rest ih =>
    cases flags with
    | nil => rfl
    | cons on flags =>
      rw [List.map_cons, flagged_cons, flagged_cons, ih]
      cases on <;> rfl

theorem flagged_member {entries : List α} {flags : List Bool} :
    entry ∈ flagged entries flags ↔
      ∃ number : Nat, entries[number]? = some entry ∧ flags[number]? = some true := by
  rw [flagged, List.mem_filterMap]
  constructor
  · rintro ⟨⟨there, on⟩, member, kept⟩
    cases on with
    | false => cases kept
    | true =>
      cases kept
      obtain ⟨number, place⟩ := List.mem_iff_getElem?.mp member
      exact ⟨number, List.getElem?_zip_eq_some.mp place⟩
  · rintro ⟨number, there, on⟩
    exact ⟨(entry, true), List.mem_of_getElem? (List.getElem?_zip_eq_some.mpr ⟨there, on⟩), rfl⟩

theorem flagged_same {entries others : List α} (sized : entries.length = others.length)
    (flags : List Bool) : flagged entries flags = flagged others flags ↔
      ∀ number : Nat, flags[number]? = some true → entries[number]? = others[number]? := by
  induction entries generalizing others flags with
  | nil =>
    cases List.length_eq_zero_iff.mp sized.symm
    exact ⟨fun _ _ _ => rfl, fun _ => rfl⟩
  | cons entry rest ih =>
    obtain ⟨other, others, rfl⟩ := List.exists_cons_of_length_eq_add_one sized.symm
    have sized : rest.length = others.length := Nat.succ.inj sized
    cases flags with
    | nil => exact ⟨fun _ number on => (by cases on), fun _ => rfl⟩
    | cons on flags =>
      have later := ih sized flags
      rw [flagged_cons, flagged_cons]
      cases on with
      | false =>
        refine later.trans ⟨?_, fun each number on => each (number + 1) on⟩
        intro each number on
        cases number with
        | zero => cases on
        | succ number => exact each number on
      | true =>
        simp only [if_true, List.cons.injEq]
        constructor
        · rintro ⟨rfl, same⟩ number on
          cases number with
          | zero => rfl
          | succ number => exact later.mp same number on
        · intro each
          exact ⟨Option.some.inj (each 0 rfl), later.mpr fun number on => each (number + 1) on⟩

theorem flagged_append {entries : List α} {flags : List Bool} (sized : entries.length = flags.length)
    {more : List α} {others : List Bool} (off : ∀ on ∈ others, on = false) :
    flagged (entries ++ more) (flags ++ others) = flagged entries flags := by
  have none : flagged more others = [] := by
    apply List.eq_nil_iff_forall_not_mem.mpr
    intro entry member
    obtain ⟨number, -, on⟩ := flagged_member.mp member
    cases off true (List.mem_of_getElem? on)
  unfold flagged at none ⊢
  rw [List.zip_append sized, List.filterMap_append, none, List.append_nil]

structure Label where
  name : String
  components : Nat
  scalarType : String
  deriving DecidableEq, Repr

abbrev Outline := Label × Nat

def PieceColumn.label (c : PieceColumn) : Label := ⟨c.name, c.components, c.scalarType⟩

def PieceColumn.outline (c : PieceColumn) : Outline := (c.label, c.values.length)

def Registered.label (r : Registered ο) : Label := ⟨r.name, r.accessor.components, r.type.name⟩

namespace Column

def outline (c : Column ο) : Outline := (c.registered.label, c.size)

theorem append_length {c : Column ο} (read : (c.append (ε := ε) shown out).1 = .ok values) :
    values.length = out.length + c.size := by
  by_cases short : shown.length < c.buffer.stop
  · obtain ⟨note, aborted⟩ := append_short (ε := ε) short out
    rw [aborted] at read
    cases read
  · rw [append_long short] at read
    obtain ⟨scalars, listed, rfl⟩ := Outcome.map_answer read
    have length := Session.readSlots_length (Session.toList_exact shown ⟨c.buffer, 0⟩ ▸ listed)
    rw [List.length_append, List.length_map, length, List.length_range]
    rfl

theorem append_empty {c : Column ο} (empty : c.size = 0) (within : c.buffer.stop ≤ shown.length) :
    c.append (ε := ε) shown out = (.ok out, c) := by
  have none : c.buffer.size = 0 := empty
  rw [append_long (Nat.not_lt.mpr within), Session.toList_exact]
  simp only [none, List.range_zero, Session.readSlots, Act.pure_exact, Except.map, List.map_nil,
    List.append_nil]

end Column

namespace Worker

def extent (w : Worker ο) (number : Nat) : Nat := (w.columns[number]?.map Column.size).getD 0

theorem collect_outlines {w : Worker ο} {columns : List PieceColumn}
    (collected : (w.collect (ε := ε) shown flags).1 = .ok columns) :
    columns.map PieceColumn.outline = (flagged w.columns flags).map Column.outline := by
  obtain ⟨answers, through, rfl⟩ := Outcome.map_answer collected
  have each : answers.map (Option.map PieceColumn.outline) =
      (w.columns.zip flags).map fun entry => if entry.2 then some entry.1.outline else none := by
    apply sweep_outlines through
    rintro ⟨c, on⟩ member answer read
    cases on with
    | false =>
      cases read
      rfl
    | true =>
      obtain ⟨values, appended, rfl⟩ := Outcome.map_answer read
      have length := Column.append_length appended
      rw [List.length_nil, Nat.zero_add] at length
      show some (_, values.length) = some (_, c.size)
      rw [length]
      rfl
  have same := congrArg (List.filterMap id) each
  rw [List.filterMap_map, List.filterMap_map] at same
  rw [List.map_filterMap, flagged, List.map_filterMap]
  refine same.trans ?_
  congr 1
  funext entry
  obtain ⟨c, on⟩ := entry
  cases on <;> rfl

theorem outlines_numbered (w : Worker ο) :
    w.columns.map Column.outline =
      w.registered.zipIdx.map fun column => (column.1.label, w.extent column.2) := by
  apply List.ext_getElem?
  intro number
  simp only [List.getElem?_map, List.getElem?_zipIdx, registered, extent, Option.map_map]
  cases there : w.columns[number]? with
  | none => rfl
  | some c => simp [Column.outline, there]

end Worker

namespace Grid

theorem Regular.selects {g : Grid ο} (regular : g.Regular) : g.selected[number]? = some true ↔
    number < g.attributes.length ∧ isSelected g.selection number = true := by
  rw [regular.flagged]
  by_cases inside : number < g.attributes.length
  · simp [inside]
  · simp [inside]

def exported (g : Grid ο) : List (Registered ο × Nat) := flagged g.registered.zipIdx g.selected

theorem exported_member {g : Grid ο} : (r, number) ∈ g.exported ↔
    g.registered[number]? = some r ∧ g.selected[number]? = some true := by
  rw [exported, flagged_member]
  constructor
  · rintro ⟨place, there, on⟩
    simp only [List.getElem?_zipIdx, Option.map_eq_some_iff, Prod.mk.injEq, Nat.zero_add] at there
    obtain ⟨column, found, rfl, rfl⟩ := there
    exact ⟨found, on⟩
  · rintro ⟨found, on⟩
    exact ⟨number, by simp [found], on⟩

theorem Regular.exported_chosen {g : Grid ο} (regular : g.Regular) :
    g.exported.map (·.1) = g.chosen := by
  rw [exported, ← flagged_map, List.zipIdx_map_fst, ← regular.chosen_eq]
  rfl

theorem worker_outlines {g : Grid ο} {columns : List PieceColumn} (regular : g.Regular)
    (member : w ∈ g.workers)
    (collected : (w.collect (ε := ε) shown g.selected).1 = .ok columns) :
    columns.map PieceColumn.outline =
      g.exported.map fun column => (column.1.label, w.extent column.2) := by
  rw [Worker.collect_outlines collected, ← flagged_map, Worker.outlines_numbered, flagged_map,
    regular.shared w member]
  rfl

theorem piece_outlines {g : Grid ο} (regular : g.Regular)
    (answered : (g.piece (ε := ε) shown step time number).1 = .ok given) :
    ∃ w, g.workers[number]? = some w ∧ given.start = w.start ∧ given.stop = w.stop ∧
      given.columns.map PieceColumn.outline =
        g.exported.map fun column => (column.1.label, w.extent column.2) := by
  unfold piece at answered
  cases there : g.workers[number]? with
  | none =>
    rw [there] at answered
    cases answered
  | some w =>
    rw [there] at answered
    obtain ⟨columns, collected, rfl⟩ := Outcome.map_answer answered
    exact ⟨w, rfl, rfl, rfl, worker_outlines regular (List.mem_of_getElem? there) collected⟩

-- Parts under the same labels, put end to end.
theorem zip_outlines {keys : List κ} {label : κ → Label} {size more : κ → Nat}
    {columns part : List PieceColumn}
    (outlined : columns.map PieceColumn.outline = keys.map fun key => (label key, size key))
    (added : part.map PieceColumn.outline = keys.map fun key => (label key, more key)) :
    ((columns.zip part).map fun (all, more) =>
        {all with values := all.values ++ more.values}).map PieceColumn.outline =
      keys.map fun key => (label key, size key + more key) := by
  induction keys generalizing columns part with
  | nil =>
    cases List.map_eq_nil_iff.mp outlined
    rfl
  | cons key rest ih =>
    obtain ⟨first, columns, rfl, head, outlined⟩ := List.map_eq_cons_iff.mp outlined
    obtain ⟨second, part, rfl, next, added⟩ := List.map_eq_cons_iff.mp added
    obtain ⟨labelled, sized⟩ := Prod.mk.inj head
    have further := (Prod.mk.inj next).2
    rw [List.zip_cons_cons, List.map_cons, List.map_cons, List.map_cons, ih outlined added,
      ← labelled, ← sized, ← further]
    simp [PieceColumn.outline, PieceColumn.label]

theorem extended_outlines {keys : List κ} {label : κ → Label} {size more : κ → Nat}
    {columns part : List PieceColumn}
    (outlined : columns.map PieceColumn.outline = keys.map fun key => (label key, size key))
    (added : part.map PieceColumn.outline = keys.map fun key => (label key, more key)) :
    (extended columns part).map PieceColumn.outline =
      keys.map fun key => (label key, size key + more key) := by
  have all : columns.length = keys.length := by simpa using congrArg List.length outlined
  have both : part.length = keys.length := by simpa using congrArg List.length added
  have lengths : columns.length = part.length := all.trans both.symm
  cases columns with
  | nil =>
    cases List.length_eq_zero_iff.mp lengths.symm
    cases List.map_eq_nil_iff.mp outlined.symm
    rfl
  | cons first rest =>
    have zipped := zip_outlines outlined added
    simp only [extended, List.isEmpty_cons, Bool.false_eq_true, if_false]
    rw [List.drop_eq_nil_of_le (Nat.le_of_eq lengths), List.append_nil]
    exact zipped

theorem extended_sums {keys : List κ} {label : κ → Label} {size : κ → Nat} {extent : σ → κ → Nat}
    {sources : List σ} {parts : List (List PieceColumn)} {columns : List PieceColumn}
    (outlined : columns.map PieceColumn.outline = keys.map fun key => (label key, size key))
    (each : parts.map (·.map PieceColumn.outline) =
      sources.map fun source => keys.map fun key => (label key, extent source key)) :
    (parts.foldl extended columns).map PieceColumn.outline =
      keys.map fun key => (label key, size key + (sources.map (extent · key)).sum) := by
  induction sources generalizing parts columns size with
  | nil =>
    cases List.map_eq_nil_iff.mp each
    simpa using outlined
  | cons source rest ih =>
    obtain ⟨part, parts, rfl, first, each⟩ := List.map_eq_cons_iff.mp each
    rw [List.foldl_cons, ih (extended_outlines outlined first) each]
    simp only [List.map_cons, List.sum_cons, Nat.add_assoc]

theorem frame_outlines {g : Grid ο} (regular : g.Regular)
    (answered : (g.frame (ε := ε) shown).1 = .ok given) :
    given.tuples = g.tuples ∧ given.columns.map PieceColumn.outline =
      g.exported.map fun column => (column.1.label, (g.workers.map (·.extent column.2)).sum) := by
  obtain ⟨parts, swept, rfl⟩ := Outcome.map_answer answered
  have each : parts.map (·.map PieceColumn.outline) =
      g.workers.map fun w => g.exported.map fun column => (column.1.label, w.extent column.2) := by
    apply sweep_outlines swept
    intro w member columns collected
    exact worker_outlines regular member collected
  refine ⟨rfl, ?_⟩
  obtain ⟨first, others, staff⟩ := List.exists_cons_of_ne_nil regular.staffed
  rw [staff] at each ⊢
  obtain ⟨part, parts, rfl, head, each⟩ := List.map_eq_cons_iff.mp each
  -- The first part starts the columns.
  show (parts.foldl extended part).map PieceColumn.outline = _
  exact extended_sums head each

theorem labels_chosen {g : Grid ο} {columns : List PieceColumn} {extent : Registered ο × Nat → Nat}
    (regular : g.Regular) (outlined : columns.map PieceColumn.outline =
      g.exported.map fun column => (column.1.label, extent column)) :
    columns.map PieceColumn.label = g.chosen.map Registered.label := by
  have labels := congrArg (List.map Prod.fst) outlined
  rw [List.map_map, List.map_map] at labels
  rw [← regular.exported_chosen, List.map_map]
  exact labels

theorem piece_labels {g : Grid ο} (regular : g.Regular)
    (answered : (g.piece (ε := ε) shown step time number).1 = .ok given) :
    given.columns.map PieceColumn.label = g.chosen.map Registered.label := by
  obtain ⟨w, -, -, -, outlined⟩ := piece_outlines regular answered
  exact labels_chosen regular outlined

theorem frame_labels {g : Grid ο} (regular : g.Regular)
    (answered : (g.frame (ε := ε) shown).1 = .ok given) :
    given.columns.map PieceColumn.label = g.chosen.map Registered.label :=
  labels_chosen regular (frame_outlines regular answered).2

theorem piece_answers {g : Grid ο} (inside : number < g.workers.length) (step : Nat) (time : Float)
    (each : ∀ w ∈ g.workers, ∀ c ∈ w.columns, ∃ values, (c.append (ε := ε) shown []).1 = .ok values) :
    ∃ given, (g.piece (ε := ε) shown step time number).1 = .ok given := by
  have there := List.getElem?_eq_getElem inside
  obtain ⟨columns, collected⟩ :=
    Worker.collect_answers (each _ (List.getElem_mem inside)) g.selected
  simp only [piece, there, workerPiece, collected]
  exact ⟨_, rfl⟩

theorem frame_answers {g : Grid ο}
    (each : ∀ w ∈ g.workers, ∀ c ∈ w.columns, ∃ values, (c.append (ε := ε) shown []).1 = .ok values) :
    ∃ given, (g.frame (ε := ε) shown).1 = .ok given := by
  have through : ∃ parts, (sweep (Worker.collect (ε := ε) shown g.selected) g.workers).1 =
      .ok parts :=
    sweep_complete fun w member => Worker.collect_answers (each w member) g.selected
  obtain ⟨parts, swept⟩ := through
  exact ⟨_, congrArg (Except.map _) swept⟩

def described (g : Grid ο) : List AttributeInfo :=
  (g.attributes.zip g.scalarTypes).map fun column => attributeInfo column.1 column.2

theorem info_described (g : Grid ο) : g.info.attributes = flagged g.described g.selected := by
  rw [described, flagged_map, flagged, List.map_filterMap]
  simp only [info]
  congr 1
  funext entry
  obtain ⟨⟨attr, type⟩, on⟩ := entry
  cases on <;> rfl

end Grid
end InSitu
