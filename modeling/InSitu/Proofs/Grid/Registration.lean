import InSitu.Proofs.Grid.Registry
namespace InSitu.Grid

def settled (g : Grid ο) : Except ε (α × Grid ο) → Outcome ε α × Grid ο
  | .error cause => (.error (.error cause), g)
  | .ok (a, next) => (.ok a, next)

def register (attr : Attribute) (column : Column ο) : Act (Grid ο) ExportError Nat := do
  let g ← get
  if (g.attributeId? attr.name).isSome then Act.refuse (.duplicateColumn g.name attr.name)
  else if column.components ≠ attr.kind.components then
    Act.refuse (.projection (.componentMismatch attr.kind.components column.components))
  else
    modify fun g => {g with scalarTypes := g.scalarTypes ++ [column.type]}
    modify fun g => {g with workers := enlist column g.workers}
    modify fun g => {g with attributes := g.attributes ++ [attr]}
    modify reselected
    return g.attributes.length

def registerAccessor (attr : Attribute) (type : ScalarType) (accessor : Accessor ο type.Carrier) :
    Act (Grid ο) ExportError Nat := do
  match Buffer.new? attr.name (← get).mode accessor with
  | .error cause => Act.refuse (.projection cause)
  | .ok buffer => register attr ⟨type, buffer⟩

def choose (selection : Option AttributeSet) : Act (Grid ο) ExportError Unit := do
  let g ← get
  match selection.bind (unknown? · g.attributes.length) with
  | some number => Act.refuse (.unknownAttribute g.name number)
  | none =>
    modify fun g => {g with selection}
    modify reselected

theorem register_exact (attr : Attribute) (column : Column ο) (g : Grid ο) :
    register attr column g = settled g (g.addColumn attr column) := by
  have taken : (g.attributeId? attr.name).isSome = g.attributes.any (·.name = attr.name) :=
    List.findIdx?_isSome
  unfold register addColumn
  simp only [Act.bind_exact, Act.get_exact, Act.ite_exact, Act.modify_exact, taken]
  split
  · rfl
  · split <;> rfl

theorem registerAccessor_exact (attr : Attribute) (type : ScalarType)
    (accessor : Accessor ο type.Carrier) (g : Grid ο) :
    registerAccessor attr type accessor g = settled g (g.addAttribute attr type accessor) := by
  unfold registerAccessor addAttribute
  simp only [Act.bind_exact, Act.get_exact]
  cases Buffer.new? attr.name g.mode accessor with
  | error cause => rfl
  | ok buffer => exact register_exact attr ⟨type, buffer⟩ g

theorem choose_exact (selection : Option AttributeSet) (g : Grid ο) :
    choose selection g = settled g ((g.select selection).map fun next => ((), next)) := by
  unfold choose select
  simp only [Act.bind_exact, Act.get_exact]
  cases selection.bind (unknown? · g.attributes.length) <;> rfl

inductive Call (ο : Type) where
  | addAttribute (attr : Attribute) (type : ScalarType) (accessor : Accessor ο type.Carrier)
  | addColumn (attr : Attribute) (column : Column ο)
  | select (selection : Option AttributeSet)
  | update (objects : List ο)
  | piece (shown : List ο) (step : Nat) (time : Float) (number : Nat)
  | frame (shown : List ο)

namespace Call

def Usable : Call ο → Prop
  | .addColumn _ column => column.buffer.Reached
  | _ => True

def attribute? : Call ο → Option Attribute
  | .addAttribute attr _ _ => some attr
  | .addColumn attr _ => some attr
  | _ => none

def selects : Call ο → Bool
  | .select _ => true
  | _ => false

def perform : Call ο → Act (Grid ο) ExportError (Option Nat)
  | .addAttribute attr type accessor => do return some (← registerAccessor attr type accessor)
  | .addColumn attr column => do return some (← register attr column)
  | .select selection => do
    choose selection
    return none
  | .update objects => fun g => ((g.update objects).1.map fun _ => none, (g.update objects).2)
  | .piece shown step time number => fun g =>
    ((g.piece shown step time number).1.map fun _ => none,
      (g.piece (ε := ExportError) shown step time number).2)
  | .frame shown => fun g =>
    ((g.frame shown).1.map fun _ => none, (g.frame (ε := ExportError) shown).2)

def performAll (calls : List (Call ο)) (g : Grid ο) : Grid ο :=
  calls.foldl (fun g call => (call.perform g).2) g

-- What the grid says to a call that registers or selects. Other calls are not refused as a whole.
def verdict? (g : Grid ο) : Call ο → Option (Except ExportError (Option Nat × Grid ο))
  | .addAttribute attr type accessor =>
    some ((g.addAttribute attr type accessor).map fun answer => (some answer.1, answer.2))
  | .addColumn attr column => some ((g.addColumn attr column).map fun answer => (some answer.1, answer.2))
  | .select selection => some ((g.select selection).map fun next => (none, next))
  | _ => none

theorem settled_map (g : Grid ο) (result : Except ε (α × Grid ο)) (f : α → β) :
    settled g (result.map fun answer => (f answer.1, answer.2)) =
      ((settled g result).1.map f, (settled g result).2) := by
  cases result <;> rfl

theorem perform_verdict {call : Call ο} (there : call.verdict? g = some result) :
    call.perform g = settled g result := by
  have answering : ∀ {α β : Type} (x : Act (Grid ο) ExportError α) (f : α → β),
      (do return f (← x) : Act (Grid ο) ExportError β) g = ((x g).1.map f, (x g).2) := by
    intro α β x f
    rw [Act.bind_exact]
    rcases x g with ⟨failure | a, reached⟩ <;> rfl
  cases call with
  | addAttribute attr type accessor =>
    cases there
    rw [settled_map, ← registerAccessor_exact]
    exact answering _ some
  | addColumn attr column =>
    cases there
    rw [settled_map, ← register_exact]
    exact answering _ some
  | select selection =>
    cases there
    rw [perform, answering (choose selection) fun _ => none, choose_exact]
    cases g.select selection <;> rfl
  | update | piece | frame => cases there

theorem verdict_answered {call : Call ο} (there : call.verdict? g = some (.ok (number, next))) :
    (∃ selection, call = .select selection ∧ number = none ∧ g.select selection = .ok next) ∨
    ∃ attr column place, call.attribute? = some attr ∧ number = some place ∧
      (call.Usable → column.buffer.Reached) ∧ g.addColumn attr column = .ok (place, next) := by
  cases call with
  | addAttribute attr type accessor =>
    obtain ⟨answer, added, entered⟩ := Outcome.map_answer (Option.some.inj there)
    cases entered
    obtain ⟨positive, added⟩ := addAttribute_exact added
    exact .inr ⟨attr, ⟨type, _⟩, _, rfl, rfl, fun _ => initial_made .., added⟩
  | addColumn attr column =>
    obtain ⟨answer, added, entered⟩ := Outcome.map_answer (Option.some.inj there)
    cases entered
    exact .inr ⟨attr, column, _, rfl, rfl, id, added⟩
  | select selection =>
    obtain ⟨next, selected, same⟩ := Outcome.map_answer (Option.some.inj there)
    cases same
    exact .inl ⟨selection, rfl, rfl, selected⟩
  | update | piece | frame => cases there

theorem verdict_moves {call : Call ο} (usable : call.Usable)
    (there : call.verdict? g = some (.ok (number, next))) : Moves g next := by
  rcases verdict_answered there with ⟨selection, -, -, selected⟩ | ⟨_, _, _, -, -, prebuilt, added⟩
  · exact .selected selected
  · exact .registered (prebuilt usable) added

theorem perform_moves {call : Call ο} (usable : call.Usable) (g : Grid ο) :
    (call.perform g).2 = g ∨ Moves g (call.perform g).2 := by
  cases verdict : call.verdict? g with
  | some result =>
    rw [perform_verdict verdict]
    cases result with
    | error cause => exact .inl rfl
    | ok answer => exact .inr (verdict_moves usable verdict)
  | none =>
    cases call with
    | addAttribute | addColumn | select => cases verdict
    | update objects => exact .inr (.updated objects)
    | piece shown step time number => exact .inr (.pieced shown step time number)
    | frame shown => exact .inr (.framed shown)

theorem perform_selection {call : Call ο} (unselecting : call.selects = false) (g : Grid ο) :
    (call.perform g).2.selection = g.selection := by
  cases verdict : call.verdict? g with
  | some result =>
    rw [perform_verdict verdict]
    cases result with
    | error cause => rfl
    | ok answer =>
      rcases verdict_answered verdict with ⟨selection, rfl, -⟩ | ⟨_, _, _, -, -, -, added⟩
      · cases unselecting
      · obtain ⟨-, -, -, grown⟩ := addColumn_exact added
        show answer.2.selection = g.selection
        rw [grown]
        rfl
  | none =>
    cases call with
    | addAttribute | addColumn | select => cases verdict
    | update objects => exact congrArg Registry.selection (g.update_registry objects)
    | piece shown step time number =>
      exact congrArg Registry.selection (g.piece_registry shown step time number)
    | frame shown => rfl

theorem performAll_reached {calls : List (Call ο)} (usable : ∀ call ∈ calls, call.Usable)
    (reached : Reached g) : Reached (performAll calls g) ∧ Extends g (performAll calls g) := by
  induction calls generalizing g with
  | nil => exact ⟨reached, .same⟩
  | cons call rest ih =>
    have later : ∀ other ∈ rest, other.Usable := fun other member =>
      usable other (List.mem_cons_of_mem _ member)
    rcases perform_moves (usable call List.mem_cons_self) g with same | moves
    · rw [performAll, List.foldl_cons, same]
      exact ih later reached
    · obtain ⟨last, grown⟩ := ih later (reached.moved moves)
      exact ⟨last, (moves_extends (reached_regular reached) moves).trans grown⟩

theorem performAll_selection {calls : List (Call ο)}
    (unselecting : ∀ call ∈ calls, call.selects = false) (g : Grid ο) :
    (performAll calls g).selection = g.selection := by
  induction calls generalizing g with
  | nil => rfl
  | cons call rest ih =>
    have later := ih (fun other member => unselecting other (List.mem_cons_of_mem _ member))
      (call.perform g).2
    exact later.trans (perform_selection (unselecting call List.mem_cons_self) g)

end Call

structure Consistent (g : Grid ο) : Prop where
  types : g.scalarTypes.length = g.attributes.length
  flags : g.selected.length = g.attributes.length
  columns : ∀ w ∈ g.workers, w.columns.length = g.attributes.length
  recorded : ∀ w ∈ g.workers, ∀ (number : Nat) column, w.columns[number]? = some column →
    ∃ attr, g.attribute? number = some attr ∧ column.components = attr.kind.components ∧
      g.scalarTypes[number]? = some column.type
  distinct : (g.attributes.map (·.name)).Nodup
  named : ∀ called number, g.attributeId? called = some number ↔
    ∃ attr, g.attribute? number = some attr ∧ attr.name = called
  chosen : ∀ number < g.attributes.length, (g.selected[number]? = some true ↔
    (g.selection = none ∨ ∃ set, g.selection = some set ∧ set.contains number = true))

theorem distinct_names {attributes : List Attribute} (distinct : (attributes.map (·.name)).Nodup)
    (called : String) (number : Nat) : attributes.findIdx? (·.name = called) = some number ↔
      ∃ attr, attributes[number]? = some attr ∧ attr.name = called := by
  constructor
  · intro found
    obtain ⟨inside, named, -⟩ := List.findIdx?_eq_some_iff_getElem.mp found
    exact ⟨_, List.getElem?_eq_getElem inside, of_decide_eq_true named⟩
  · rintro ⟨attr, there, rfl⟩
    cases found : attributes.findIdx? (·.name = attr.name) with
    | none =>
      have apart := List.findIdx?_eq_none_iff.mp found attr (List.mem_of_getElem? there)
      exact absurd rfl (of_decide_eq_false apart)
    | some other =>
      obtain ⟨inside, named, -⟩ := List.findIdx?_eq_some_iff_getElem.mp found
      have same : (attributes.map (·.name))[other]? = (attributes.map (·.name))[number]? := by
        rw [List.getElem?_map, List.getElem?_map, there, List.getElem?_eq_getElem inside]
        exact congrArg some (of_decide_eq_true named)
      rw [(List.getElem?_inj (by simpa using inside) distinct).mp same]

theorem Enrolled.consistent {g : Grid ο} (enrolled : g.Enrolled) : g.Consistent := by
  have regular := enrolled.regular
  obtain ⟨types, flags⟩ := enrolled.counted
  refine ⟨types, flags, fun w member => regular.sized member, ?_, enrolled.distinct,
    distinct_names enrolled.distinct, ?_⟩
  · intro w member number column there
    have listed : g.registered[number]? = some column.registered := by
      rw [← regular.shared w member, Worker.registered, List.getElem?_map, there]
      rfl
    have components := congrArg (·[number]?) enrolled.components
    simp only [List.getElem?_map, listed, Option.map_some, Option.map_eq_some_iff] at components
    obtain ⟨attr, found, same⟩ := components
    refine ⟨attr, found, same.symm, ?_⟩
    rw [enrolled.types, List.getElem?_map, listed]
    rfl
  · intro number inside
    rw [regular.flagged, List.getElem?_map, List.getElem?_range inside]
    show some (isSelected g.selection number) = some true ↔ _
    cases g.selection <;> simp [isSelected]

-- After any calls, whether they were answered, refused or aborted, the lists of the registry stay beside
-- each other. A registration or a selection is what the grid itself says it is: refused, it has changed
-- nothing; answered, it has entered the attribute under the next number. Attributes keep their numbers
-- over any further calls, and a chosen set keeps giving out the same columns until another is chosen.
theorem registration_consistent (called : String) (workers : Nat) (mode : Mode)
    {calls : List (Call ο)} (usable : ∀ call ∈ calls, call.Usable)
    (performed : Call.performAll calls (initial called workers mode) = g) :
    g.Consistent ∧
    (∀ (call : Call ο) result, call.verdict? g = some result →
      (∀ cause, result = .error cause → call.perform g = (.error (.error cause), g)) ∧
      ∀ number next, result = .ok (number, next) → call.perform g = (.ok number, next) ∧
        ∀ place, number = some place → place = g.attributes.length ∧
          next.attribute? place = call.attribute?) ∧
    ∀ more : List (Call ο), (∀ call ∈ more, call.Usable) →
      (∀ number attr, g.attribute? number = some attr →
        (Call.performAll more g).attribute? number = some attr ∧
        (Call.performAll more g).attributeId? attr.name = some number) ∧
      (g.selection ≠ none → (∀ call ∈ more, call.selects = false) →
        (Call.performAll more g).info = g.info ∧
        (∀ shown step time number given,
          ((Call.performAll more g).piece (ε := ExportError) shown step time number).1 = .ok given →
          given.columns.map PieceColumn.label = g.chosen.map Registered.label) ∧
        ∀ shown given, ((Call.performAll more g).frame (ε := ExportError) shown).1 = .ok given →
          given.columns.map PieceColumn.label = g.chosen.map Registered.label) := by
  have reached : Reached g := performed ▸ (Call.performAll_reached usable (.initial ..)).1
  have enrolled := reached_enrolled reached
  refine ⟨enrolled.consistent, ?_, ?_⟩
  · intro call result verdict
    have performs := Call.perform_verdict verdict
    refine ⟨?_, ?_⟩
    · rintro cause rfl
      exact performs
    · rintro number next rfl
      refine ⟨performs, ?_⟩
      rintro place rfl
      rcases Call.verdict_answered verdict with ⟨_, _, none, _⟩ | ⟨attr, column, _, entered, same, -, added⟩
      · cases none
      · cases same
        obtain ⟨-, -, rfl, rfl⟩ := addColumn_exact added
        rw [entered]
        exact ⟨rfl, List.getElem?_concat_length⟩
  · intro more usable
    obtain ⟨last, grown⟩ := Call.performAll_reached usable reached
    have later := reached_enrolled last
    constructor
    · intro number attr there
      obtain ⟨added, attributes⟩ := grown.attributes
      have inside := (List.getElem?_eq_some_iff.mp there).1
      have kept : (Call.performAll more g).attribute? number = some attr := by
        rw [attribute?, ← attributes, List.getElem?_append_left inside]
        exact there
      exact ⟨kept, (later.consistent.named attr.name number).mpr ⟨attr, kept, rfl⟩⟩
    · intro some unselecting
      have same := Call.performAll_selection unselecting g
      obtain ⟨columns, infos⟩ := grown.exports enrolled later.regular same some
      rw [← columns]
      refine ⟨infos, ?_, ?_⟩
      · intro shown step time number given answered
        exact piece_labels later.regular answered
      · intro shown given answered
        exact frame_labels later.regular answered

-- The set is chosen before the second column, which has a name of its own, and after it the name of the
-- first attribute is refused.
def Call.pairs : List (Call (UInt64 × UInt64)) :=
  [.addAttribute ⟨"pair", .vector 2, none⟩ .u64 Accessor.halves, .select (some (.ofList [0])),
    .addColumn ⟨"other", .vector 2, none⟩ ⟨.u64, .initial "swapped" .cache Accessor.halves (by decide)⟩,
    .addAttribute ⟨"pair", .vector 2, none⟩ .u64 Accessor.halves, .update [(1, 2), (3, 4)]]

theorem registration_consistent_pairs : ∃ g : Grid (UInt64 × UInt64),
    Call.performAll Call.pairs (initial "cells" 2 .copy) = g ∧ g.Consistent ∧
    g.attributeId? "other" = some 1 ∧
    (Call.select (some (.ofList [0, 2]))).perform g =
      (.error (.error (.unknownAttribute "cells" 2)), g) ∧
    (Call.performAll Call.pairs.tail g).attributeId? "other" = some 1 := by
  have usable : ∀ call ∈ Call.pairs, call.Usable := by
    simp only [Call.pairs, List.forall_mem_cons, Call.Usable, true_and]
    exact ⟨initial_made .., by simp⟩
  have later : ∀ call ∈ Call.pairs.tail, call.Usable := fun call member =>
    usable call (List.mem_of_mem_tail member)
  obtain ⟨consistent, verdicts, onward⟩ := registration_consistent "cells" 2 .copy usable rfl
  have named := (consistent.named "other" 1).mpr ⟨_, rfl, rfl⟩
  exact ⟨_, rfl, consistent, named,
    (verdicts (.select (some (.ofList [0, 2]))) _ rfl).1 _ rfl,
    ((onward Call.pairs.tail later).1 1 _ rfl).2⟩

end InSitu.Grid
