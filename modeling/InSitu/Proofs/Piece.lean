import InSitu.Piece
import InSitu.Proofs.Json.Double
import InSitu.Proofs.Outcome
namespace InSitu

def Rereads (x y : Float) : Prop := Json.double? (some (.ofFloat x)) = some y

def IsFinite (x : Float) : Prop := Decimal.finiteBits x.toBits.toNat = true

instance (x : Float) : Decidable (IsFinite x) := inferInstanceAs (Decidable (_ = true))

theorem rereads_exists {x : Float} : (∃ y, Rereads x y) ↔ IsFinite x := by
  unfold Rereads
  rw [← Option.isSome_iff_exists]
  exact Json.double_accepted x

-- A whole number, or one with few digits and a small power of ten, is read as it was.
theorem rereads_kept {x : Float} (finite : IsFinite x) (kept : Json.Whole x ∨ Json.Direct x) :
    Rereads x x := by
  cases kept with
  | inl whole => exact Json.double_direct finite (Json.whole_direct finite whole)
  | inr direct => exact Json.double_direct finite direct

theorem forall₂_agree {r s : α → β → Prop} {xs : List α} {ys : List β}
    (agree : ∀ x ∈ xs, ∀ y, r x y ↔ s x y) : List.Forall₂ r xs ys ↔ List.Forall₂ s xs ys := by
  induction xs generalizing ys with
  | nil => rw [List.forall₂_nil_left_iff, List.forall₂_nil_left_iff]
  | cons x rest ih =>
    obtain ⟨first, later⟩ := List.forall_mem_cons.mp agree
    simp only [List.forall₂_cons_left_iff, first, ih later]

theorem spelled_float (x : Float) : Json.Spelled (.ofFloat x) := by
  by_cases finite : IsFinite x
  · obtain ⟨y, reads⟩ := rereads_exists.mpr finite
    exact Json.double_spelled reads
  · have nothing : Json.ofFloat x = .null := if_neg finite
    rw [nothing]
    exact .null

namespace PieceColumn

structure Rereads (c back : PieceColumn) : Prop where
  name_eq : back.name = c.name
  components_eq : back.components = c.components
  scalarType_eq : back.scalarType = c.scalarType
  values : List.Forall₂ InSitu.Rereads c.values back.values

theorem ofJson_exact {c back : PieceColumn} (fits : c.components < Nat.pow 2 64) :
    ofJson? c.toJson = some back ↔ c.Rereads back := by
  have found : c.toJson.fields? ["name", "components", "scalar_type", "values"] =
      some [some (.text c.name), some (.ofNat c.components), some (.text c.scalarType),
        some (.array (c.values.map .ofFloat))] := Json.fields_written (by simp)
  have read : ofJson? c.toJson = (Json.items? Json.double?
      (some (.array (c.values.map .ofFloat)))).bind fun values => some {c with values} := by
    simp only [ofJson?, found, Option.bind_eq_bind, Option.bind_some, Json.content?,
      Json.natBelow_nat fits]
    rfl
  rw [read, Option.bind_eq_some_iff]
  constructor
  · intro ⟨values, listed, same⟩
    cases same
    exact ⟨rfl, rfl, rfl, Json.items_exact.mp listed⟩
  · intro rereads
    obtain ⟨name, components, scalarType, values⟩ := back
    obtain ⟨rfl, rfl, rfl, each⟩ := rereads
    exact ⟨values, Json.items_exact.mpr each, rfl⟩

theorem spelled (c : PieceColumn) : Json.Spelled c.toJson := by
  have values := Json.spelled_items fun x (_ : x ∈ c.values) => spelled_float x
  refine Json.spelled_fields ?_
  simp [Json.spelled_nat, Json.Spelled.text, values]

theorem rereads_exists {c : PieceColumn} :
    (∃ back, c.Rereads back) ↔ ∀ x ∈ c.values, IsFinite x := by
  have values : (∃ values, List.Forall₂ InSitu.Rereads c.values values) ↔
      ∀ x ∈ c.values, IsFinite x := by
    simp only [forall₂_exists, InSitu.rereads_exists]
  rw [← values]
  constructor
  · intro ⟨back, rereads⟩
    exact ⟨back.values, rereads.values⟩
  · intro ⟨values, each⟩
    exact ⟨{c with values}, rfl, rfl, rfl, each⟩

theorem rereads_same {c : PieceColumn} : c.Rereads c ↔ ∀ x ∈ c.values, InSitu.Rereads x x := by
  rw [← List.forall₂_same]
  exact ⟨fun rereads => rereads.values, fun each => ⟨rfl, rfl, rfl, each⟩⟩

end PieceColumn

namespace Piece

structure Fits (p : Piece) : Prop where
  step : p.step < Nat.pow 2 64
  worker : p.worker < Nat.pow 2 32
  start : p.start < Nat.pow 2 64
  stop : p.stop < Nat.pow 2 64
  components : ∀ c ∈ p.columns, c.components < Nat.pow 2 64

structure Rereads (p back : Piece) : Prop where
  grid_eq : back.grid = p.grid
  step_eq : back.step = p.step
  time : InSitu.Rereads p.time back.time
  worker_eq : back.worker = p.worker
  start_eq : back.start = p.start
  stop_eq : back.stop = p.stop
  columns : List.Forall₂ PieceColumn.Rereads p.columns back.columns

theorem ofJson_exact {p back : Piece} (fits : p.Fits) :
    ofJson? p.toJson = some back ↔ p.Rereads back := by
  have found : p.toJson.fields? ["grid", "step", "time", "worker", "start", "end", "columns"] =
      some [some (.text p.grid), some (.ofNat p.step), some (.ofFloat p.time), some (.ofNat p.worker),
        some (.ofNat p.start), some (.ofNat p.stop),
        some (.array (p.columns.map PieceColumn.toJson))] := Json.fields_written (by simp)
  have read : ofJson? p.toJson = (Json.double? (some (.ofFloat p.time))).bind fun time =>
      (Json.items? (·.bind PieceColumn.ofJson?)
        (some (.array (p.columns.map PieceColumn.toJson)))).bind fun columns =>
          some {p with time, columns} := by
    simp only [ofJson?, found, Option.bind_eq_bind, Option.bind_some, Json.content?,
      Json.natBelow_nat fits.step, Json.natBelow_nat fits.worker, Json.natBelow_nat fits.start,
      Json.natBelow_nat fits.stop]
    rfl
  have listed : ∀ {columns}, Json.items? (·.bind PieceColumn.ofJson?)
      (some (.array (p.columns.map PieceColumn.toJson))) = some columns ↔
      List.Forall₂ PieceColumn.Rereads p.columns columns := by
    intro columns
    rw [Json.items_exact]
    apply forall₂_agree
    intro c there other
    exact PieceColumn.ofJson_exact (fits.components c there)
  rw [read, Option.bind_eq_some_iff]
  constructor
  · intro ⟨time, timed, onward⟩
    obtain ⟨columns, each, same⟩ := Option.bind_eq_some_iff.mp onward
    cases same
    exact ⟨rfl, rfl, timed, rfl, rfl, rfl, listed.mp each⟩
  · intro rereads
    obtain ⟨grid, step, time, worker, start, stop, columns⟩ := back
    obtain ⟨rfl, rfl, timed, rfl, rfl, rfl, each⟩ := rereads
    exact ⟨time, timed, Option.bind_eq_some_iff.mpr ⟨columns, listed.mpr each, rfl⟩⟩

theorem spelled (p : Piece) : Json.Spelled p.toJson := by
  have columns := Json.spelled_items fun c (_ : c ∈ p.columns) => c.spelled
  refine Json.spelled_fields ?_
  simp [Json.spelled_nat, Json.Spelled.text, spelled_float, columns]

-- Its text is read as the pieces that differ from it in what its doubles are read as.
theorem read_exact {p back : Piece} (fits : p.Fits) :
    read? p.text = some back ↔ p.Rereads back := by
  rw [← ofJson_exact fits]
  unfold read? text
  rw [Json.read_compact p.spelled, Option.bind_some]

def EachDouble (p : Piece) (holds : Float → Prop) : Prop :=
  holds p.time ∧ ∀ c ∈ p.columns, ∀ x ∈ c.values, holds x

theorem EachDouble.onward {p : Piece} {holds others : Float → Prop} (each : p.EachDouble holds)
    (onward : ∀ x, holds x → others x) : p.EachDouble others := by
  obtain ⟨timed, columns⟩ := each
  exact ⟨onward _ timed, fun c member x there => onward x (columns c member x there)⟩

theorem rereads_exists {p : Piece} : (∃ back, p.Rereads back) ↔ p.EachDouble IsFinite := by
  have columns : (∃ columns, List.Forall₂ PieceColumn.Rereads p.columns columns) ↔
      ∀ c ∈ p.columns, ∀ x ∈ c.values, IsFinite x := by
    simp only [forall₂_exists, PieceColumn.rereads_exists]
  unfold EachDouble
  rw [← columns, ← InSitu.rereads_exists]
  constructor
  · intro ⟨back, rereads⟩
    exact ⟨⟨_, rereads.time⟩, ⟨_, rereads.columns⟩⟩
  · intro ⟨⟨time, timed⟩, ⟨columns, each⟩⟩
    exact ⟨{p with time, columns}, rfl, rfl, timed, rfl, rfl, rfl, each⟩

theorem rereads_same {p : Piece} : p.Rereads p ↔ p.EachDouble fun x => InSitu.Rereads x x := by
  have columns : List.Forall₂ PieceColumn.Rereads p.columns p.columns ↔
      ∀ c ∈ p.columns, ∀ x ∈ c.values, InSitu.Rereads x x := by
    simp only [List.forall₂_same, PieceColumn.rereads_same]
  unfold EachDouble
  rw [← columns]
  constructor
  · intro rereads
    exact ⟨rereads.time, rereads.columns⟩
  · intro ⟨timed, each⟩
    exact ⟨rfl, rfl, timed, rfl, rfl, rfl, each⟩

theorem read_accepted {p : Piece} (fits : p.Fits) :
    (∃ back, read? p.text = some back) ↔ p.EachDouble IsFinite := by
  simp only [read_exact fits, rereads_exists]

theorem read_same {p : Piece} (fits : p.Fits) :
    read? p.text = some p ↔ p.EachDouble fun x => InSitu.Rereads x x :=
  (read_exact fits).trans rereads_same

theorem read_kept {p : Piece} (fits : p.Fits)
    (kept : p.EachDouble fun x => IsFinite x ∧ (Json.Whole x ∨ Json.Direct x)) :
    read? p.text = some p := by
  apply (read_same fits).mpr
  apply kept.onward
  intro x ⟨finite, short⟩
  exact rereads_kept finite short

end Piece
end InSitu
