import InSitu.Proofs.Grid.Registry
namespace InSitu

def AttributeInfo.label (a : AttributeInfo) : Label := ⟨a.name, a.components, a.scalarType⟩

def Label.makeup (l : Label) : Nat × String := (l.components, l.scalarType)

namespace Grid

def Titled (g : Grid ο) : Prop :=
  ∀ (number : Nat) r attr, g.selected[number]? = some true → g.registered[number]? = some r →
    g.attribute? number = some attr → r.name = attr.name

theorem chosen_labels {g : Grid ο} (regular : g.Regular) :
    g.chosen.map Registered.label = flagged (g.registered.map Registered.label) g.selected := by
  rw [flagged_map, ← regular.chosen_eq]
  rfl

theorem info_labels (g : Grid ο) : g.info.attributes.map AttributeInfo.label =
    flagged (g.described.map AttributeInfo.label) g.selected := by
  rw [info_described, flagged_map]

theorem Enrolled.described_length {g : Grid ο} (enrolled : g.Enrolled) :
    g.registered.length = g.described.length := by
  rw [enrolled.regular.counted, described, List.length_map, List.length_zip, enrolled.counted.1,
    Nat.min_self]

theorem Enrolled.described_each {g : Grid ο} (enrolled : g.Enrolled) (number : Nat) :
    (g.registered[number]? = none ∧ g.described[number]? = none) ∨
    ∃ r attr, g.registered[number]? = some r ∧ g.attribute? number = some attr ∧
      (g.described[number]?.map AttributeInfo.label) =
        some ⟨attr.name, r.accessor.components, r.type.name⟩ := by
  cases column : g.registered[number]? with
  | none =>
    have beyond := enrolled.described_length ▸ List.getElem?_eq_none_iff.mp column
    exact .inl ⟨rfl, List.getElem?_eq_none beyond⟩
  | some r =>
    have components := congrArg (·[number]?) enrolled.components
    simp only [List.getElem?_map, column, Option.map_some, Option.map_eq_some_iff] at components
    obtain ⟨attr, found, same⟩ := components
    have type : g.scalarTypes[number]? = some r.type := by
      rw [enrolled.types, List.getElem?_map, column]
      rfl
    refine .inr ⟨r, attr, rfl, found, ?_⟩
    have zipped := List.getElem?_zip_eq_some (z := (attr, r.type)).mpr ⟨found, type⟩
    rw [described, List.getElem?_map, zipped, ← same]
    rfl

theorem labels_titled {g : Grid ο} (enrolled : g.Enrolled) :
    g.chosen.map Registered.label = g.info.attributes.map AttributeInfo.label ↔ g.Titled := by
  rw [chosen_labels enrolled.regular, info_labels,
    flagged_same (by simpa using enrolled.described_length)]
  refine forall_congr' fun number => ?_
  rw [List.getElem?_map, List.getElem?_map]
  rcases enrolled.described_each number with ⟨none, missing⟩ | ⟨r, attr, column, found, described⟩
  · simp [none, missing]
  · simp [column, found, described, Registered.label]

theorem labels_makeup {g : Grid ο} (enrolled : g.Enrolled) :
    g.chosen.map (·.label.makeup) = g.info.attributes.map (·.label.makeup) := by
  have same : g.registered.map (·.label.makeup) = g.described.map (·.label.makeup) := by
    apply List.ext_getElem?
    intro number
    rw [List.getElem?_map, List.getElem?_map]
    rcases enrolled.described_each number with ⟨none, missing⟩ | ⟨r, attr, column, -, described⟩
    · rw [none, missing]
      rfl
    · have makeup := congrArg (Option.map Label.makeup) described
      rw [Option.map_map] at makeup
      rw [column]
      exact makeup.symm
  rw [info_described, ← flagged_map, ← same, flagged_map, ← enrolled.regular.chosen_eq]
  rfl

theorem addColumn_titled {g : Grid ο} {column : Column ο} (regular : g.Regular)
    (dated : column.Dated) (added : g.addColumn attr column = .ok (number, next)) :
    next.Titled ↔ g.Titled ∧ (isSelected g.selection number = true → column.name = attr.name) := by
  obtain ⟨later, shape⟩ := addColumn_regular regular dated added
  have columns : next.registered = g.registered ++ [column.registered] :=
    congrArg Shape.columns shape
  obtain ⟨-, -, rfl, grown⟩ := addColumn_exact added
  have attributes : next.attributes = g.attributes ++ [attr] := by rw [grown]; rfl
  have selection : next.selection = g.selection := by rw [grown]; rfl
  have size : next.attributes.length = g.attributes.length + 1 := by simp [attributes]
  constructor
  · intro titled
    refine ⟨?_, ?_⟩
    · intro number r old selected there found
      obtain ⟨inside, on⟩ := regular.selects.mp selected
      have on := later.selects.mpr ⟨size ▸ Nat.lt_succ_of_lt inside, selection ▸ on⟩
      apply titled number r old on
      · rw [columns, List.getElem?_append_left (regular.counted ▸ inside)]
        exact there
      · rw [attribute?, attributes, List.getElem?_append_left inside]
        exact found
    · intro on
      have on := later.selects.mpr ⟨size ▸ Nat.lt_succ_self _, selection ▸ on⟩
      apply titled g.attributes.length column.registered attr on
      · rw [columns, ← regular.counted, List.getElem?_concat_length]
      · rw [attribute?, attributes, List.getElem?_concat_length]
  · rintro ⟨titled, last⟩ number r old selected there found
    obtain ⟨inside, on⟩ := later.selects.mp selected
    rw [selection] at on
    rw [columns] at there
    rw [attribute?, attributes] at found
    rcases Nat.lt_or_eq_of_le (Nat.le_of_lt_succ (size ▸ inside)) with below | rfl
    · rw [List.getElem?_append_left (regular.counted ▸ below)] at there
      rw [List.getElem?_append_left below] at found
      exact titled number r old (regular.selects.mpr ⟨below, on⟩) there found
    · rw [← regular.counted, List.getElem?_concat_length] at there
      rw [List.getElem?_concat_length] at found
      cases there
      cases found
      exact last on

theorem addAttribute_titled {g : Grid ο} {type : ScalarType} {accessor : Accessor ο type.Carrier}
    (regular : g.Regular) (added : g.addAttribute attr type accessor = .ok (number, next)) :
    next.Titled ↔ g.Titled := by
  obtain ⟨positive, added⟩ := addAttribute_exact added
  rw [addColumn_titled regular (Buffer.reached_dated (initial_made ..)) added]
  exact and_iff_left fun _ => rfl

-- Every column has the name of its attribute, selected or not.
structure Labelled (g : Grid ο) : Prop where
  enrolled : g.Enrolled
  names : g.registered.map (·.name) = g.attributes.map (·.name)

theorem Labelled.titled {g : Grid ο} (labelled : g.Labelled) : g.Titled := by
  intro number r attr _ there found
  have same := congrArg (·[number]?) labelled.names
  have listed : g.attributes[number]? = some attr := found
  simpa only [List.getElem?_map, there, listed, Option.map_some, Option.some.injEq] using same

theorem Labelled.onward {g next : Grid ο} (labelled : g.Labelled)
    (kept : next.Regular ∧ next.shape = g.shape) (same : next.registry = g.registry) :
    next.Labelled := by
  refine ⟨labelled.enrolled.onward kept same, ?_⟩
  have columns : next.registered = g.registered := congrArg Shape.columns kept.2
  have attributes : next.attributes = g.attributes := congrArg Registry.attributes same
  rw [columns, attributes]
  exact labelled.names

-- Labels on pieces and frames are those in the information about the grid if and only if the selected
-- columns have the names of their attributes; components and element types are always the same. The
-- names are the same unless a prebuilt column with another name was registered and is selected.
theorem labels_described {g : Grid ο} (reached : Reached g) :
    (∀ shown step time number given,
      (g.piece (ε := ExportError) shown step time number).1 = .ok given →
      (given.columns.map PieceColumn.label = g.info.attributes.map AttributeInfo.label ↔ g.Titled) ∧
        given.columns.map (·.label.makeup) = g.info.attributes.map (·.label.makeup)) ∧
    (∀ shown given, (g.frame (ε := ExportError) shown).1 = .ok given →
      (given.columns.map PieceColumn.label = g.info.attributes.map AttributeInfo.label ↔ g.Titled) ∧
        given.columns.map (·.label.makeup) = g.info.attributes.map (·.label.makeup)) ∧
    (∀ shown, (∀ w ∈ g.workers, ∀ c ∈ w.columns, c.size = 0 ∧ c.buffer.stop ≤ shown.length) →
      (∀ step time, ∀ number < g.workers.length, ∃ given,
        (g.piece (ε := ExportError) shown step time number).1 = .ok given) ∧
      ∃ given, (g.frame (ε := ExportError) shown).1 = .ok given) ∧
    (∀ attr type accessor number next, g.addAttribute attr type accessor = .ok (number, next) →
      (next.Titled ↔ g.Titled)) ∧
    ∀ attr (column : Column ο) number next, column.buffer.Reached →
      g.addColumn attr column = .ok (number, next) →
      (next.Titled ↔ g.Titled ∧ (isSelected g.selection number = true → column.name = attr.name)) := by
  have enrolled := reached_enrolled reached
  have regular := enrolled.regular
  have given : ∀ {columns : List PieceColumn},
      columns.map PieceColumn.label = g.chosen.map Registered.label →
      (columns.map PieceColumn.label = g.info.attributes.map AttributeInfo.label ↔ g.Titled) ∧
        columns.map (·.label.makeup) = g.info.attributes.map (·.label.makeup) := by
    intro columns labels
    have makeup := congrArg (List.map Label.makeup) labels
    rw [List.map_map, List.map_map] at makeup
    rw [labels]
    exact ⟨labels_titled enrolled, makeup.trans (labels_makeup enrolled)⟩
  refine ⟨?_, ?_, ?_, ?_, ?_⟩
  · intro shown step time number answer answered
    exact given (piece_labels regular answered)
  · intro shown answer answered
    exact given (frame_labels regular answered)
  · intro shown empty
    have each : ∀ w ∈ g.workers, ∀ c ∈ w.columns, ∃ values,
        (c.append (ε := ExportError) shown []).1 = .ok values := by
      intro w member c there
      obtain ⟨none, within⟩ := empty w member c there
      exact ⟨[], congrArg Prod.fst (Column.append_empty none within)⟩
    exact ⟨fun step time number inside => piece_answers inside step time each, frame_answers each⟩
  · intro attr type accessor number next added
    exact addAttribute_titled regular added
  · intro attr column number next prebuilt added
    exact addColumn_titled regular (Buffer.reached_dated prebuilt) added

theorem labels_described_pairs : ∃ (g : Grid (UInt64 × UInt64)) (given : Piece),
    (initial "cells" 2 .cache).addAttribute ⟨"pair", .vector 2, none⟩ .u64 Accessor.halves =
      .ok (0, g) ∧
    (g.piece (ε := ExportError) [(1, 2)] 0 0 1).1 = .ok given ∧
    given.columns.map PieceColumn.label = [⟨"pair", 2, "u64"⟩] ∧
    given.columns.map PieceColumn.label = g.info.attributes.map AttributeInfo.label := by
  have empty : Reached (initial "cells" 2 .cache : Grid (UInt64 × UInt64)) := .initial ..
  obtain ⟨-, -, -, onward, -⟩ := labels_described empty
  have titled := (onward ⟨"pair", .vector 2, none⟩ .u64 Accessor.halves 0 _ rfl).mpr
    fun number r attr selected => by cases selected
  have reached := empty.moved (addAttribute_moves ⟨"pair", .vector 2, none⟩ .u64 Accessor.halves rfl)
  obtain ⟨pieces, -, -, -, -⟩ := labels_described reached
  exact ⟨_, _, rfl, rfl, rfl, (pieces [(1, 2)] 0 0 1 _ rfl).1.mpr titled⟩

-- A column that brings its own name is given out under it, and described under that of its attribute.
theorem labels_differ_prebuilt : ∃ (g : Grid Float) (piece : Piece) (frame : FrameGrid),
    (initial "cells" 1 .copy).addColumn ⟨"diameter", .scalar, none⟩
      ⟨.f64, .initial "width" .copy ⟨1, fun object => [object]⟩ (by decide)⟩ = .ok (0, g) ∧
    (g.piece (ε := ExportError) [1.5] 0 0 0).1 = .ok piece ∧
    (g.frame (ε := ExportError) [1.5]).1 = .ok frame ∧
    piece.columns.map PieceColumn.label = [⟨"width", 1, "f64"⟩] ∧
    frame.columns.map PieceColumn.label = [⟨"width", 1, "f64"⟩] ∧
    g.info.attributes.map AttributeInfo.label = [⟨"diameter", 1, "f64"⟩] ∧
    piece.columns.map PieceColumn.label ≠ g.info.attributes.map AttributeInfo.label :=
  ⟨_, _, _, rfl, rfl, rfl, rfl, rfl, rfl, by decide⟩

end Grid
end InSitu
