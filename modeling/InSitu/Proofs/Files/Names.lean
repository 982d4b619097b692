import InSitu.PieceFiles
import InSitu.Proofs.Decimal.Characters
import InSitu.Proofs.Files.Tree
namespace InSitu

namespace Path

theorem names_end {lower : List PathUnit} (front : List PathUnit) (within : slash ∉ lower)
    (nonempty : lower ≠ []) : (⟨front ++ slash :: lower⟩ : Path).names.getLast? = some lower := by
  have apart : lower.splitOn slash = [lower] := List.splitOn_eq_singleton within
  simp [names, List.splitOn_append_cons_self, apart, nonempty]

theorem end_called (front : List PathUnit) {p : Path} {lower : List PathUnit}
    (named : p.names.getLast? = some lower) (within : slash ∉ lower) (long : 2 < lower.length)
    (ends : p.units = front ++ lower) :
    p.called? = some lower := by
  refine called_exact.mpr ⟨named, ?_, ?_, ?_⟩
  · rintro rfl
    exact absurd long (by decide)
  · rintro rfl
    exact absurd long (by decide)
  · rcases List.eq_nil_or_concat lower with rfl | ⟨init, last, rfl⟩
    · exact absurd long (by decide)
    · rw [namesDirectory, ends, List.concat_eq_append, ← List.append_assoc,
        List.getLast?_concat]
      simp only [Option.some.injEq, decide_eq_false_iff_not]
      rintro rfl
      exact within (by simp)

def EndsIn (units lower : List PathUnit) : Prop :=
  units = lower ∨ ∃ front, units = front ++ slash :: lower

theorem ends_called {p : Path} {lower : List PathUnit} (ends : EndsIn p.units lower)
    (within : slash ∉ lower) (long : 2 < lower.length) : p.called? = some lower := by
  have nonempty : lower ≠ [] := List.ne_nil_of_length_pos (by omega)
  obtain ⟨units⟩ := p
  rcases ends with rfl | ⟨front, rfl⟩
  · refine end_called [] ?_ within long rfl
    rw [names, List.splitOn_eq_singleton within]
    simp [nonempty]
  · exact end_called (front ++ [slash]) (names_end front within nonempty) within long (by simp)

theorem join_ends (p : Path) {name : String} {lower : List PathUnit}
    (ends : EndsIn (ofString name).units lower) : EndsIn (p.join name).units lower := by
  unfold join
  dsimp only
  split
  · exact ends
  · split
    · rename_i trailing
      obtain ⟨init, closed⟩ := List.getLast?_eq_some_iff.mp trailing
      rcases ends with same | ⟨front, split⟩
      · exact .inr ⟨init, by simp [closed, same]⟩
      · exact .inr ⟨p.units ++ front, by simp [split]⟩
    · rcases ends with same | ⟨front, split⟩
      · exact .inr ⟨p.units, by rw [same]⟩
      · exact .inr ⟨p.units ++ slash :: front, by simp [split]⟩

def lastPart (chars : List Char) : List Char := (chars.reverse.takeWhile (· ≠ '/')).reverse

theorem lastPart_unslashed (chars : List Char) : '/' ∉ lastPart chars := by
  intro member
  have quiet := List.all_takeWhile (p := (· ≠ '/')) (l := chars.reverse)
  have apart := List.all_eq_true.mp quiet '/' (List.mem_reverse.mp member)
  simp at apart

theorem lastPart_append {behind : List Char} (quiet : '/' ∉ behind) (front : List Char) :
    lastPart (front ++ behind) = lastPart front ++ behind := by
  have each : ∀ c ∈ behind.reverse, decide (c ≠ '/') = true := by
    intro c member
    rw [decide_eq_true_eq]
    rintro rfl
    exact quiet (List.mem_reverse.mp member)
  rw [lastPart, List.reverse_append, List.takeWhile_append_of_pos each, List.reverse_append,
    List.reverse_reverse, lastPart]

theorem lastPart_whole {chars : List Char} (quiet : '/' ∉ chars) : lastPart chars = chars := by
  simpa [lastPart] using lastPart_append quiet []

theorem lastPart_ends (name : String) :
    EndsIn (ofString name).units ((lastPart name.toList).map .char) := by
  have split := List.takeWhile_append_dropWhile (p := (· ≠ '/')) (l := name.toList.reverse)
  have units : (ofString name).units =
      ((name.toList.reverse.dropWhile (· ≠ '/')).reverse ++ lastPart name.toList).map .char := by
    rw [lastPart, ← List.reverse_append, split, List.reverse_reverse]
    rfl
  cases rest : name.toList.reverse.dropWhile (· ≠ '/') with
  | nil =>
    rw [rest] at units
    exact .inl units
  | cons c behind =>
    have stopped : c = '/' := by
      have head := List.head?_dropWhile_not (· ≠ '/') name.toList.reverse
      rw [rest] at head
      simpa using head
    rw [rest, stopped] at units
    refine .inr ⟨behind.reverse.map .char, ?_⟩
    rw [units]
    simp [slash]

theorem join_lastPart (p : Path) {name : String} (long : 2 < (lastPart name.toList).length) :
    (p.join name).called? = some ((lastPart name.toList).map .char) := by
  refine ends_called (join_ends p (lastPart_ends name)) ?_ (by simpa using long)
  intro member
  obtain ⟨c, inside, same⟩ := List.mem_map.mp member
  cases same
  exact lastPart_unslashed _ inside

theorem join_called (p : Path) {name : String} (within : '/' ∉ name.toList)
    (long : 2 < name.toList.length) : (p.join name).called? = some (ofString name).units := by
  have part := lastPart_whole within
  rw [join_lastPart p (part.symm ▸ long), part]
  rfl

theorem ofString_inj {name other : String} (same : (ofString name).units = (ofString other).units) :
    name = other :=
  String.toList_injective ((List.map_inj_right fun _ _ equal => PathUnit.char.inj equal).mp same)

end Path

-- Text behind the last separator is told apart from the text in front of it.
theorem last_apart {front other back behind : List Char} (quiet : separator ∉ back)
    (silent : separator ∉ behind) (same : front ++ separator :: back = other ++ separator :: behind) :
    front = other ∧ back = behind := by
  rcases List.append_eq_append_iff.mp same with ⟨more, longer, split⟩ | ⟨more, longer, split⟩
  · cases more with
    | nil =>
      cases split
      exact ⟨by simpa using longer.symm, rfl⟩
    | cons c more =>
      cases split
      exact absurd (by simp) quiet
  · cases more with
    | nil =>
      cases split
      exact ⟨by simpa using longer, rfl⟩
    | cons c more =>
      cases split
      exact absurd (by simp) silent

inductive GridFile (grid : String) (step : Nat) : String → Prop where
  | piece (worker : Nat) : GridFile grid step (Piece.fileName grid step worker)
  | index : GridFile grid step (PieceIndex.fileName grid step)

def Piece.suffix (worker : Nat) : List Char := '_' :: (Decimal.digitChars worker ++ ".json".toList)

def PieceIndex.suffix : List Char := ".pindex".toList

theorem Piece.fileName_chars (grid : String) (step worker : Nat) :
    (fileName grid step worker).toList =
      grid.toList ++ '-' :: (Decimal.digitChars step ++ suffix worker) := by
  have dash : "-".toList = ['-'] := rfl
  have underscore : "_".toList = ['_'] := rfl
  unfold fileName suffix
  simp only [String.toList_append, Decimal.shown_number, Decimal.shown_text]
  rw [dash, underscore]
  simp only [List.append_assoc, List.cons_append, List.nil_append]

theorem PieceIndex.fileName_chars (grid : String) (step : Nat) :
    (fileName grid step).toList = grid.toList ++ '-' :: (Decimal.digitChars step ++ suffix) := by
  have dash : "-".toList = ['-'] := rfl
  unfold fileName suffix
  simp only [String.toList_append, Decimal.shown_number, Decimal.shown_text]
  rw [dash]
  simp only [List.append_assoc, List.cons_append, List.nil_append]

-- The dash in front of the step is the last one, since neither end has one.
theorem Piece.undashed (step worker : Nat) : '-' ∉ Decimal.digitChars step ++ suffix worker := by
  have digits : ∀ n, '-' ∉ Decimal.digitChars n := fun n => Decimal.digits_without rfl
  simp [suffix, digits]

theorem PieceIndex.undashed (step : Nat) : '-' ∉ Decimal.digitChars step ++ suffix := by
  have fixed : '-' ∉ suffix := by decide
  have digits : '-' ∉ Decimal.digitChars step := Decimal.digits_without rfl
  simp [fixed, digits]

theorem Piece.fileName_inj {grid other : String} {step later worker number : Nat}
    (same : fileName grid step worker = fileName other later number) :
    grid = other ∧ step = later ∧ worker = number := by
  have chars := congrArg String.toList same
  rw [fileName_chars, fileName_chars] at chars
  obtain ⟨grids, ends⟩ := last_apart (undashed _ _) (undashed _ _) chars
  have plain : ∀ n, '_' ∉ Decimal.digitChars n ++ ".json".toList := by
    intro n member
    rcases List.mem_append.mp member with digit | fixed
    · exact Decimal.digits_without rfl digit
    · exact absurd fixed (by decide)
  obtain ⟨steps, workers⟩ := last_apart (plain _) (plain _) ends
  exact ⟨String.toList_injective grids, Decimal.digitChars_inj steps,
    Decimal.digitChars_inj (List.append_cancel_right workers)⟩

theorem PieceIndex.fileName_inj (same : fileName grid step = fileName other later) :
    grid = other ∧ step = later := by
  have chars := congrArg String.toList same
  rw [fileName_chars, fileName_chars] at chars
  obtain ⟨grids, ends⟩ := last_apart (undashed _) (undashed _) chars
  exact ⟨String.toList_injective grids, Decimal.digitChars_inj (List.append_cancel_right ends)⟩

theorem piece_not_index : Piece.fileName grid step worker ≠ PieceIndex.fileName other later := by
  intro same
  have chars := congrArg String.toList same
  rw [Piece.fileName_chars, PieceIndex.fileName_chars] at chars
  obtain ⟨-, ends⟩ := last_apart (Piece.undashed _ _) (PieceIndex.undashed _) chars
  have marked : '_' ∈ Decimal.digitChars later ++ PieceIndex.suffix := by
    rw [← ends]
    simp [Piece.suffix]
  rcases List.mem_append.mp marked with digit | fixed
  · exact Decimal.digits_without rfl digit
  · exact absurd fixed (by decide)

namespace GridFile

theorem chars (file : GridFile grid step name) :
    ∃ ending, name.toList = grid.toList ++ '-' :: ending ∧ 4 < ending.length ∧ '/' ∉ ending := by
  have digits : ∀ n, '/' ∉ Decimal.digitChars n := fun n => Decimal.digits_without rfl
  cases file with
  | piece worker =>
    refine ⟨_, Piece.fileName_chars grid step worker, ?_, by simp [Piece.suffix, digits]⟩
    simp [Piece.suffix]
    omega
  | index =>
    have fixed : 4 < PieceIndex.suffix.length ∧ '/' ∉ PieceIndex.suffix := by decide
    refine ⟨_, PieceIndex.fileName_chars grid step, ?_, by simp [fixed, digits]⟩
    rw [List.length_append]
    omega

theorem owner (file : GridFile grid step name) (again : GridFile other later name) :
    grid = other ∧ step = later := by
  cases file with
  | piece worker =>
    generalize shape : Piece.fileName grid step worker = name at again
    cases again with
    | piece number =>
      obtain ⟨grids, steps, -⟩ := Piece.fileName_inj shape
      exact ⟨grids, steps⟩
    | index => exact absurd shape piece_not_index
  | index =>
    generalize shape : PieceIndex.fileName grid step = name at again
    cases again with
    | piece number => exact absurd shape.symm piece_not_index
    | index => exact PieceIndex.fileName_inj shape

theorem not_sidecar : ¬ GridFile grid step SimulationInfo.fileName := by
  intro file
  obtain ⟨ending, chars, -⟩ := file.chars
  have undashed : '-' ∉ SimulationInfo.fileName.toList := by decide
  exact undashed (by simp [chars])

theorem name_apart (file : GridFile grid step name) : name ≠ SimulationInfo.fileName := by
  rintro rfl
  exact not_sidecar file

theorem part (file : GridFile grid step name) : ∃ ending, 4 < ending.length ∧
    name.toList = grid.toList ++ '-' :: ending ∧
    Path.lastPart name.toList = Path.lastPart grid.toList ++ '-' :: ending := by
  obtain ⟨ending, chars, long, plain⟩ := file.chars
  refine ⟨ending, long, chars, ?_⟩
  rw [chars, Path.lastPart_append (by simp [plain])]

theorem called_part (p : Path) (file : GridFile grid step name) :
    (p.join name).called? = some ((Path.lastPart name.toList).map .char) := by
  obtain ⟨ending, long, -, part⟩ := file.part
  apply Path.join_lastPart
  rw [part, List.length_append, List.length_cons]
  omega

theorem part_inj (file : GridFile grid step name) (again : GridFile grid step later)
    (same : (Path.lastPart name.toList).map PathUnit.char =
      (Path.lastPart later.toList).map PathUnit.char) : name = later := by
  obtain ⟨ending, -, chars, part⟩ := file.part
  obtain ⟨other, -, chars', part'⟩ := again.part
  have parts := (List.map_inj_right fun _ _ equal => PathUnit.char.inj equal).mp same
  rw [part, part'] at parts
  apply String.toList_injective
  rw [chars, chars', List.append_cancel_left parts]

theorem piece_apart {p : Path} (own : (p.join (Piece.fileName grid step worker)).called? = some name) :
    (p.join (PieceIndex.fileName grid step)).called? ≠ some name := by
  intro called
  rw [called_part p (.piece worker)] at own
  rw [called_part p .index] at called
  exact piece_not_index
    (part_inj (.piece worker) .index (Option.some.inj (own.trans called.symm)))

theorem called (p : Path) (within : '/' ∉ grid.toList) (file : GridFile grid step name) :
    (p.join name).called? = some (Path.ofString name).units := by
  obtain ⟨ending, chars, long, plain⟩ := file.chars
  refine Path.join_called p ?_ ?_
  · rw [chars]
    simp [within, plain]
  · rw [chars, List.length_append, List.length_cons]
    omega

def Named (grid : String) (step : Nat) (name : PathName) : Prop :=
  ∃ file, GridFile grid step file ∧ name = (Path.ofString file).units

theorem Named.owner (named : Named grid step name) (again : Named other later name) :
    grid = other ∧ step = later := by
  obtain ⟨file, mine, rfl⟩ := named
  obtain ⟨file', yours, same⟩ := again
  cases Path.ofString_inj same
  exact mine.owner yours

theorem Named.not_sidecar (named : Named grid step name) :
    name ≠ (Path.ofString SimulationInfo.fileName).units := by
  obtain ⟨file, mine, rfl⟩ := named
  intro same
  cases Path.ofString_inj same
  exact GridFile.not_sidecar mine

end GridFile

-- Every file that a run writes into its directory.
inductive OutputFile where
  | piece (grid : String) (step worker : Nat)
  | index (grid : String) (step : Nat)
  | sidecar

namespace OutputFile

def name : OutputFile → String
  | .piece grid step worker => Piece.fileName grid step worker
  | .index grid step => PieceIndex.fileName grid step
  | .sidecar => SimulationInfo.fileName

-- A grid may be called anything, after another file of the run as well: a name is still that of one
-- file.
theorem names_apart (file other : OutputFile) : file.name = other.name ↔ file = other := by
  refine ⟨fun same => ?_, congrArg name⟩
  cases file with
  | piece grid step worker =>
    cases other with
    | piece =>
      obtain ⟨rfl, rfl, rfl⟩ := Piece.fileName_inj same
      rfl
    | index => exact absurd same piece_not_index
    | sidecar => exact absurd same (GridFile.name_apart (.piece worker))
  | index grid step =>
    cases other with
    | piece => exact absurd same.symm piece_not_index
    | index =>
      obtain ⟨rfl, rfl⟩ := PieceIndex.fileName_inj same
      rfl
    | sidecar => exact absurd same (GridFile.name_apart .index)
  | sidecar =>
    cases other with
    | piece grid step worker => exact absurd same.symm (GridFile.name_apart (.piece worker))
    | index => exact absurd same.symm (GridFile.name_apart .index)
    | sidecar => rfl

end OutputFile
end InSitu
