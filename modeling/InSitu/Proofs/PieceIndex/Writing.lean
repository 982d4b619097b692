import InSitu.Proofs.Files.Tree
import InSitu.Proofs.Outcome
import InSitu.Proofs.PieceIndex.Listing
import InSitu.PieceFiles
namespace InSitu

namespace PieceIndex

theorem patch_written {files : Files} (reads : files.readText path = .ok (template grid step time))
    (pieces : Nat) : ∃ reached,
      files.write path (.text (listing grid step time pieces)) = .ok reached ∧
      reached.readText path = .ok (listing grid step time pieces) ∧
      patch path grid step pieces files = (.ok (), reached) := by
  obtain ⟨l, spot, there⟩ := Files.readText_exact.mp reads
  have created := Files.create_exact.mpr ⟨l, spot, by simp [there], rfl⟩
  obtain ⟨reached, written, readable⟩ := Files.write_reads created (listing grid step time pieces)
  refine ⟨reached, written, readable, ?_⟩
  have read : readFile path files = (.ok (template grid step time), files) := by
    simp [readFile, reads]
  simp only [patch, Act.bind_exact, read, template_expands, onFile, written]

theorem write_made {files : Files}
    (created : files.create (directory.join (fileName grid step)) = .ok fresh) (time : Float)
    (pieces : Nat) : ∃ reached name, write directory grid step time pieces files =
        (.ok (directory.join (fileName grid step)), reached) ∧
      reached.readText (directory.join (fileName grid step)) = .ok (listing grid step time pieces) ∧
      (directory.join (fileName grid step)).called? = some name ∧
      Files.Keeps (· = name) files reached := by
  unfold write
  generalize directory.join (fileName grid step) = path at created
  obtain ⟨first, written, reads⟩ := Files.write_reads created (template grid step time)
  obtain ⟨name, called, before⟩ := Files.write_keeps written
  obtain ⟨reached, rewritten, readable, patched⟩ := patch_written reads pieces
  obtain ⟨other, renamed, after⟩ := Files.write_keeps rewritten
  cases called.symm.trans renamed
  refine ⟨reached, name, ?_, readable, called, before.trans after⟩
  simp only [Act.bind_exact, onFile, written, patched]
  rfl

theorem write_exact (directory : Path) (grid : String) (step : Nat) (time : Float) (pieces : Nat)
    (files : Files) :
    (∃ reached name, write directory grid step time pieces files =
        (.ok (directory.join (fileName grid step)), reached) ∧
      reached.readText (directory.join (fileName grid step)) = .ok (listing grid step time pieces) ∧
      (directory.join (fileName grid step)).called? = some name ∧
      Files.Keeps (· = name) files reached) ∨
    ∃ kind, write directory grid step time pieces files =
      (.error (.error (.io (directory.join (fileName grid step)) kind)), files) := by
  cases created : files.create (directory.join (fileName grid step)) with
  | ok fresh => exact .inl (write_made created time pieces)
  | error kind =>
    have refused : files.write (directory.join (fileName grid step))
        (.text (template grid step time)) = .error kind := by
      simp only [Files.write, created, bind, Except.bind]
    refine .inr ⟨kind, ?_⟩
    unfold write
    simp only [Act.bind_exact, onFile, refused]

end PieceIndex
end InSitu
