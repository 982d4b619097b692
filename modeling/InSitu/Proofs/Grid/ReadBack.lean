import InSitu.Proofs.Piece
import InSitu.Proofs.Grid.Outline
import InSitu.Proofs.Grid.Writing
namespace InSitu

namespace Worker

theorem collect_components {w : Worker ο} {columns : List PieceColumn} {part : PieceColumn}
    (collected : (w.collect (ε := ε) shown flags).1 = .ok columns) (member : part ∈ columns) :
    ∃ c ∈ w.columns, part.components = c.components := by
  have outlined : part.outline ∈ (flagged w.columns flags).map Column.outline := by
    rw [← collect_outlines collected]
    exact List.mem_map_of_mem member
  obtain ⟨c, kept, same⟩ := List.mem_map.mp outlined
  obtain ⟨number, there, -⟩ := flagged_member.mp kept
  have labels : c.registered.label = part.label := congrArg Prod.fst same
  exact ⟨c, List.mem_of_getElem? there, (congrArg Label.components labels).symm⟩

end Worker

namespace Grid

variable {ο : Type} {objects : List ο} {directory : Path} {step : Nat} {time : Float}

structure Fits (g : Grid ο) : Prop where
  staff : g.workers.length ≤ Nat.pow 2 32
  start : ∀ w ∈ g.workers, w.start < Nat.pow 2 64
  stop : ∀ w ∈ g.workers, w.stop < Nat.pow 2 64
  components : ∀ w ∈ g.workers, ∀ c ∈ w.columns, c.components < Nat.pow 2 64

theorem built_fits {g : Grid ο} {p : Piece} {number : Nat} (fits : g.Fits) (room : step < Nat.pow 2 64)
    (there : (g.built objects step time)[number]? = some (.ok p)) : p.Fits := by
  obtain ⟨w, found, made⟩ := built_exact there
  obtain ⟨columns, collected, rfl⟩ := Outcome.map_answer made
  have member := List.mem_of_getElem? found
  have inside := (List.getElem?_eq_some_iff.mp found).1
  refine ⟨room, inside.trans_le fits.staff, fits.start w member, fits.stop w member, ?_⟩
  intro part listed
  obtain ⟨c, own, same⟩ := Worker.collect_components collected listed
  rw [same]
  exact fits.components w member c own

-- For any grid and any order of the workers: the file of each worker is read exactly if all doubles
-- in its piece are finite. Then every double comes back as its number is read, and all else as it was.
theorem pieces_read_back {g : Grid ο} (fits : g.Fits) (room : step < Nat.pow 2 64) :
    WritesPieces objects directory step time g files
      (g.writePieces objects directory step time files) ∧
    ∀ count next reached,
      WritesPieces objects directory step time g files (.ok count, next, reached) →
      count = g.workers.length ∧ ∀ number < g.workers.length, ∃ p content,
        (g.built objects step time)[number]? = some (.ok p) ∧
        reached.readText (directory.join (Piece.fileName g.name step number)) = .ok content ∧
        ((∃ back, Piece.read? content = some back) ↔ p.EachDouble IsFinite) ∧
        (∀ back, Piece.read? content = some back ↔ p.Rereads back) ∧
        (Piece.read? content = some p ↔ p.EachDouble fun x => Rereads x x) ∧
        ((p.EachDouble fun x => IsFinite x ∧ (Json.Whole x ∨ Json.Direct x)) →
          Piece.read? content = some p) := by
  refine ⟨writePieces_sound objects directory step time g files, ?_⟩
  intro count next reached writes
  obtain ⟨counted, -, pieces⟩ := writes_reads writes
  refine ⟨counted, ?_⟩
  intro number inside
  obtain ⟨p, made, filed⟩ := pieces number inside
  have small := built_fits fits room made
  exact ⟨p, p.text, made, filed, Piece.read_accepted small, fun back => Piece.read_exact small,
    Piece.read_same small, Piece.read_kept small⟩

-- One cell for each of three workers. The number of the second width has too many digits to be read
-- in one step, and the third width has no number.
def widths : List Float := [1.5, Float.ofBits 0x433fffffffffffff, Float.ofBits 0x7ff8000000000000]

def measured : Grid Float :=
  match (initial "cells" 3 .copy).addAttribute ⟨"diameter", .scalar, none⟩ .f64
      (⟨1, fun object => [object]⟩ : Accessor Float Float) with
  | .ok (_, g) => (g.update widths).2
  | .error _ => initial "cells" 3 .copy

def measuredPiece (number : Nat) (width : Float) : Piece :=
  ⟨"cells", 0, 0, number, number, number + 1, [⟨"diameter", 1, "f64", [width]⟩]⟩

theorem measured_built : measured.built widths 0 0 =
    [.ok (measuredPiece 0 1.5), .ok (measuredPiece 1 (Float.ofBits 0x433fffffffffffff)),
      .ok (measuredPiece 2 (Float.ofBits 0x7ff8000000000000))] := rfl

theorem measured_fits : measured.Fits := ⟨by decide, by decide, by decide, by decide⟩

theorem measured_written : ∃ listed, measured.writePieces widths (.ofString "output") 0 0
    (Files.initial.makeDirectory (.ofString "output")).2 =
      (.ok 3, measured.collected widths, listed) :=
  writePieces_made (by rfl) (by rfl)

theorem pieces_read_back_first : measured.Fits ∧ ∃ listed content,
    measured.writePieces widths (.ofString "output") 0 0
      (Files.initial.makeDirectory (.ofString "output")).2 =
        (.ok 3, measured.collected widths, listed) ∧
    (measured.built widths 0 0)[0]? = some (.ok (measuredPiece 0 1.5)) ∧
    listed.readText ((Path.ofString "output").join (Piece.fileName "cells" 0 0)) = .ok content ∧
    Piece.read? content = some (measuredPiece 0 1.5) := by
  obtain ⟨listed, written⟩ := measured_written
  obtain ⟨writes, reads⟩ := pieces_read_back measured_fits (show 0 < Nat.pow 2 64 by decide)
  obtain ⟨-, pieces⟩ := reads _ _ _ (written ▸ writes)
  obtain ⟨p, content, made, filed, -, -, -, kept⟩ := pieces 0 (by decide)
  rw [measured_built] at made
  cases made
  have time : IsFinite 0 ∧ (Json.Whole 0 ∨ Json.Direct 0) :=
    ⟨by decide, .inl ⟨0, by decide, (Nat.zero_mul _).symm⟩⟩
  have direct : Json.Direct 1.5 :=
    ⟨⟨false, ['1'], some ['5'], none⟩, rfl, by decide, by decide, by decide⟩
  refine ⟨measured_fits, listed, content, written, rfl, filed, kept ⟨time, ?_⟩⟩
  intro c member x there
  cases List.mem_singleton.mp member
  cases List.mem_singleton.mp there
  exact ⟨by decide, .inr direct⟩

theorem pieces_changed_widths : ∃ listed second third,
    measured.writePieces widths (.ofString "output") 0 0
      (Files.initial.makeDirectory (.ofString "output")).2 =
        (.ok 3, measured.collected widths, listed) ∧
    (measured.built widths 0 0)[1]? =
      some (.ok (measuredPiece 1 (Float.ofBits 0x433fffffffffffff))) ∧
    listed.readText ((Path.ofString "output").join (Piece.fileName "cells" 0 1)) = .ok second ∧
    listed.readText ((Path.ofString "output").join (Piece.fileName "cells" 0 2)) = .ok third ∧
    Piece.read? second = some (measuredPiece 1 (Float.ofBits 0x433ffffffffffffe)) ∧
    measuredPiece 1 (Float.ofBits 0x433ffffffffffffe) ≠
      measuredPiece 1 (Float.ofBits 0x433fffffffffffff) ∧
    Piece.read? third = none := by
  obtain ⟨listed, written⟩ := measured_written
  have writes := writePieces_sound widths (.ofString "output") 0 0 measured
    (Files.initial.makeDirectory (.ofString "output")).2
  obtain ⟨-, -, pieces⟩ := writes_reads (written ▸ writes)
  obtain ⟨p, made, second⟩ := pieces 1 (by decide)
  obtain ⟨p', made', third⟩ := pieces 2 (by decide)
  have fits := built_fits measured_fits (by decide) made
  have fits' := built_fits measured_fits (by decide) made'
  rw [measured_built] at made made'
  cases made
  cases made'
  refine ⟨listed, _, _, written, rfl, second, third, ?_, ?_, ?_⟩
  · apply (Piece.read_exact fits).mpr
    exact ⟨rfl, rfl, rfl, rfl, rfl, rfl, .cons ⟨rfl, rfl, rfl, .cons rfl .nil⟩ .nil⟩
  · intro same
    have bits := congrArg (fun p => (p.columns.flatMap PieceColumn.values).map Float.toBits) same
    exact absurd bits (by decide)
  · apply Option.eq_none_iff_forall_ne_some.mpr
    intro back read
    obtain ⟨-, columns⟩ := (Piece.read_accepted fits').mp ⟨back, read⟩
    have finite := columns _ List.mem_cons_self _ List.mem_cons_self
    exact absurd finite (by decide)

end Grid
end InSitu
