import InSitu.Proofs.AttributeSet.Iteration
import InSitu.Proofs.Grid.Labels
import InSitu.Proofs.Grid.Registration
namespace InSitu

theorem flagged_zip (entries : List α) (others : List β) (flags : List Bool)
    (sized : entries.length = others.length) :
    flagged (entries.zip others) flags = (flagged entries flags).zip (flagged others flags) := by
  induction entries generalizing others flags with
  | nil =>
    cases List.length_eq_zero_iff.mp sized.symm
    rfl
  | cons entry rest ih =>
    obtain ⟨other, others, rfl⟩ := List.exists_cons_of_length_eq_add_one sized.symm
    cases flags with
    | nil => rfl
    | cons on flags =>
      have later := ih others flags (Nat.succ.inj sized)
      rw [List.zip_cons_cons, flagged_cons, flagged_cons, flagged_cons]
      cases on with
      | false => exact later
      | true => exact congrArg ((entry, other) :: ·) later

theorem flagged_length (entries : List α) (others : List β) (flags : List Bool)
    (sized : entries.length = others.length) :
    (flagged entries flags).length = (flagged others flags).length := by
  have left : (entries.zip others).map Prod.fst = entries := List.map_fst_zip (Nat.le_of_eq sized)
  have right : (entries.zip others).map Prod.snd = others := List.map_snd_zip (Nat.le_of_eq sized.symm)
  rw [← left, flagged_map, List.length_map]
  conv_rhs => rw [← right, flagged_map, List.length_map]

namespace Worker

theorem sweep_flagged {columns : List (Column ο)}
    (swept : (sweep (collectColumn (ε := ε) shown) (columns.zip (columns.map fun _ => true))).1 =
      .ok answers) :
    ∃ pieces, answers = pieces.map some ∧ pieces.length = columns.length ∧
      ∀ flags : List Bool, flags.length = columns.length →
        (sweep (collectColumn (ε := ε) shown) (columns.zip flags)).1.map (·.filterMap id) =
          .ok (flagged pieces flags) := by
  induction columns generalizing answers with
  | nil =>
    cases swept
    exact ⟨[], rfl, rfl, fun flags _ => rfl⟩
  | cons c rest ih =>
    rw [List.map_cons, List.zip_cons_cons] at swept
    unfold sweep at swept
    rcases visited : collectColumn (ε := ε) shown (c, true) with ⟨failure | answer, reached⟩ <;>
      rw [visited] at swept
    · cases swept
    · obtain ⟨others, later, rfl⟩ := Outcome.map_answer swept
      obtain ⟨pieces, rfl, sized, each⟩ := ih later
      obtain ⟨values, -, rfl⟩ := Outcome.map_answer (congrArg Prod.fst visited)
      refine ⟨_ :: pieces, rfl, congrArg Nat.succ sized, fun flags flagged => ?_⟩
      obtain ⟨on, flags, rfl⟩ := List.exists_cons_of_length_eq_add_one flagged
      obtain ⟨given, through, same⟩ := Outcome.map_answer (each flags (Nat.succ.inj flagged))
      rw [List.zip_cons_cons, flagged_cons, ← same]
      unfold sweep
      cases on with
      | false => simp [collectColumn, through, Except.map]
      | true => simp [visited, through, Except.map]

-- What a worker gives out of a selection is picked from what it gives out of everything.
theorem collect_flagged {w : Worker ο} {flags : List Bool} {columns : List PieceColumn}
    (sized : flags.length = w.columns.length)
    (collected : (w.collect (ε := ε) shown (w.columns.map fun _ => true)).1 = .ok columns) :
    columns.length = w.columns.length ∧
      (w.collect (ε := ε) shown flags).1 = .ok (flagged columns flags) := by
  obtain ⟨answers, swept, rfl⟩ := Outcome.map_answer collected
  obtain ⟨pieces, rfl, length, each⟩ := sweep_flagged swept
  have whole : (pieces.map some).filterMap id = pieces := by simp
  rw [whole]
  exact ⟨length, each flags sized⟩

end Worker

namespace Grid

def picked (selection : Option AttributeSet) (entries : List α) : List α :=
  entries.zipIdx.filterMap fun (entry, number) =>
    if isSelected selection number then some entry else none

theorem picked_flagged (selection : Option AttributeSet) (entries : List α) :
    flagged entries ((List.range entries.length).map (isSelected selection)) =
      picked selection entries := by
  rw [flagged, List.zip_map_right, List.filterMap_map, picked, List.zipIdx_eq_zip_range',
    List.range_eq_range']
  rfl

theorem picked_map (selection : Option AttributeSet) (f : α → β) (entries : List α) :
    picked selection (entries.map f) = (picked selection entries).map f := by
  rw [← picked_flagged, ← picked_flagged, List.length_map, flagged_map]

def unselected (g : Grid ο) : Grid ο := {g with selection := none}.reselected

theorem Regular.unselected {g : Grid ο} (regular : g.Regular) (member : w ∈ g.workers) :
    g.unselected.selected = w.columns.map fun _ => true := by
  have all : g.unselected.selected = (List.range g.attributes.length).map fun _ => true := rfl
  rw [all, List.map_const', List.map_const', List.length_range, regular.sized member]

-- Pieces, frames and the information about a grid give out the columns of a selection and no others,
-- each as it is given out when everything is selected.
structure Lists (selection : Option AttributeSet) (g : Grid ο) : Prop where
  info : g.info.attributes = picked selection g.described
  piece : ∀ shown step time number given,
    (g.piece (ε := ExportError) shown step time number).1 = .ok given →
    given.columns.map PieceColumn.label = picked selection (g.registered.map Registered.label)
  frame : ∀ shown given, (g.frame (ε := ExportError) shown).1 = .ok given →
    given.columns.map PieceColumn.label = picked selection (g.registered.map Registered.label)
  piece_whole : ∀ shown step time number whole,
    (g.unselected.piece (ε := ExportError) shown step time number).1 = .ok whole →
    (g.piece (ε := ExportError) shown step time number).1 =
      .ok {whole with columns := picked selection whole.columns}
  frame_whole : ∀ shown whole, (g.unselected.frame (ε := ExportError) shown).1 = .ok whole →
    (g.frame (ε := ExportError) shown).1 = .ok {whole with columns := picked selection whole.columns}

theorem collect_picked {g : Grid ο} (regular : g.Regular) (member : w ∈ g.workers)
    (collected : (w.collect (ε := ε) shown g.unselected.selected).1 = .ok columns) :
    columns.length = g.attributes.length ∧
      (w.collect (ε := ε) shown g.selected).1 = .ok (picked g.selection columns) := by
  have size := regular.sized member
  have sized : g.selected.length = w.columns.length := by
    rw [regular.flagged, List.length_map, List.length_range, size]
  rw [regular.unselected member] at collected
  obtain ⟨length, given⟩ := Worker.collect_flagged sized collected
  rw [given, regular.flagged, ← picked_flagged, length, size]
  exact ⟨rfl, rfl⟩

theorem piece_picked {g : Grid ο} (regular : g.Regular)
    (answered : (g.unselected.piece (ε := ε) shown step time number).1 = .ok whole) :
    (g.piece (ε := ε) shown step time number).1 =
      .ok {whole with columns := picked g.selection whole.columns} := by
  have staff : g.unselected.workers = g.workers := rfl
  unfold piece at answered ⊢
  rw [staff] at answered
  cases there : g.workers[number]? with
  | none =>
    rw [there] at answered
    cases answered
  | some w =>
    rw [there] at answered
    obtain ⟨columns, collected, rfl⟩ := Outcome.map_answer answered
    obtain ⟨-, given⟩ := collect_picked regular (List.mem_of_getElem? there) collected
    exact congrArg (Except.map _) given

theorem extended_zip {columns part : List PieceColumn} (sized : columns.length = part.length) :
    extended columns part =
      (columns.zip part).map fun (all, more) => {all with values := all.values ++ more.values} := by
  cases columns with
  | nil =>
    cases List.length_eq_zero_iff.mp sized.symm
    rfl
  | cons first rest =>
    simp only [extended, List.isEmpty_cons, Bool.false_eq_true, if_false]
    rw [List.drop_eq_nil_of_le (Nat.le_of_eq sized), List.append_nil]

theorem extended_picked {columns part : List PieceColumn} (selection : Option AttributeSet)
    (sized : columns.length = part.length) :
    extended (picked selection columns) (picked selection part) =
      picked selection (extended columns part) := by
  have same : (picked selection columns).length = (picked selection part).length := by
    rw [← picked_flagged, ← picked_flagged, sized]
    exact flagged_length _ _ _ sized
  rw [extended_zip same, extended_zip sized, picked_map, ← picked_flagged, ← picked_flagged,
    ← picked_flagged, flagged_zip _ _ _ sized, List.length_zip, sized, Nat.min_self]

theorem extended_all {columns : List PieceColumn} {parts : List (List PieceColumn)}
    (selection : Option AttributeSet) (sized : ∀ part ∈ parts, columns.length = part.length) :
    (parts.map (picked selection)).foldl extended (picked selection columns) =
      picked selection (parts.foldl extended columns) := by
  induction parts generalizing columns with
  | nil => rfl
  | cons part rest ih =>
    have first := sized part List.mem_cons_self
    have length : (extended columns part).length = columns.length := by
      rw [extended_zip first, List.length_map, List.length_zip, first, Nat.min_self]
    rw [List.map_cons, List.foldl_cons, List.foldl_cons, extended_picked selection first]
    exact ih fun other member => length.trans (sized other (List.mem_cons_of_mem _ member))

theorem frame_picked {g : Grid ο} (regular : g.Regular)
    (answered : (g.unselected.frame (ε := ε) shown).1 = .ok whole) :
    (g.frame (ε := ε) shown).1 = .ok {whole with columns := picked g.selection whole.columns} := by
  obtain ⟨parts, swept, rfl⟩ := Outcome.map_answer answered
  have staff : g.unselected.workers = g.workers := rfl
  rw [staff] at swept
  obtain ⟨each, -⟩ := sweep_answers swept
  have picks : ∀ (number : Nat) part, parts[number]? = some part →
      part.length = g.attributes.length ∧ ∃ w, g.workers[number]? = some w ∧
        (w.collect (ε := ε) shown g.selected).1 = .ok (picked g.selection part) := by
    intro number part there
    have here := congrArg (·[number]?) each
    simp only [List.getElem?_map, there, Option.map_some, Option.map_eq_some_iff] at here
    obtain ⟨w, found, collected⟩ := here
    obtain ⟨length, given⟩ := collect_picked regular (List.mem_of_getElem? found) collected
    exact ⟨length, w, found, given⟩
  have count : g.workers.length = parts.length := by simpa using congrArg List.length each
  have through : (sweep (Worker.collect (ε := ε) shown g.selected) g.workers).1 =
      .ok (parts.map (picked g.selection)) := by
    apply sweep_images
    apply List.ext_getElem?
    intro number
    simp only [List.getElem?_map]
    cases there : parts[number]? with
    | none =>
      have beyond : g.workers[number]? = none :=
        List.getElem?_eq_none (count ▸ List.getElem?_eq_none_iff.mp there)
      rw [beyond]
      rfl
    | some part =>
      obtain ⟨-, w, found, given⟩ := picks number part there
      rw [found]
      exact congrArg some given
  have sized : ∀ part ∈ parts, part.length = g.attributes.length := by
    intro part member
    obtain ⟨number, there⟩ := List.mem_iff_getElem?.mp member
    exact (picks number part there).1
  obtain ⟨first, others, rfl⟩ := List.exists_cons_of_ne_nil (l := parts) fun none =>
    regular.staffed (List.length_eq_zero_iff.mp (count.trans (congrArg List.length none)))
  obtain ⟨head, later⟩ := List.forall_mem_cons.mp sized
  have joined := extended_all g.selection fun part member => head.trans (later part member).symm
  simp only [frame, through]
  exact congrArg (fun columns => Except.ok (FrameGrid.mk g.name g.tuples columns)) joined

theorem Enrolled.lists {g : Grid ο} (enrolled : g.Enrolled) : g.Lists g.selection := by
  have regular := enrolled.regular
  have described : g.described.length = g.attributes.length :=
    enrolled.described_length.symm.trans regular.counted
  have labels : g.chosen.map Registered.label = picked g.selection (g.registered.map Registered.label) := by
    rw [chosen_labels regular, regular.flagged, ← regular.counted, ← picked_flagged, List.length_map]
  refine ⟨?_, ?_, ?_, ?_, ?_⟩
  · rw [info_described, regular.flagged, ← described, picked_flagged]
  · intro shown step time number given answered
    exact (piece_labels regular answered).trans labels
  · intro shown given answered
    exact (frame_labels regular answered).trans labels
  · intro shown step time number whole answered
    exact piece_picked regular answered
  · intro shown whole answered
    exact frame_picked regular answered

end Grid
end InSitu
