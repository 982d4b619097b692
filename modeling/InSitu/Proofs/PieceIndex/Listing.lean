import InSitu.Proofs.Decimal.Characters
import InSitu.Proofs.PieceIndex.Occurrence
namespace InSitu.PieceIndex
open Decimal (shown_number shown_text)

def listing (grid : String) (step : Nat) (time : Float) (pieces : Nat) : String :=
  opening grid step time ++
    String.join ((List.range pieces).map fun worker =>
      s!"<Piece Source=\"{grid}-{step}_{worker}.json\"/>\n") ++ closing

def header : List Char := "<?xml version=\"1.0\"?>\n<PieceIndex grid=\"".toList

def lead : List Char := "<Piece Source=\"".toList

def between (step : Nat) (time : Float) : List Char :=
  "\" step=\"".toList ++ Decimal.digitChars step ++ "\" time=\"".toList ++
    (Decimal.text time).toList ++ "\">\n".toList

def ending (step worker : Nat) : List Char :=
  ('-' :: Decimal.digitChars step) ++ '_' :: (Decimal.digitChars worker ++ ".json\"/>".toList)

theorem opening_chars (grid : String) (step : Nat) (time : Float) :
    (opening grid step time).toList = header ++ (grid.toList ++ between step time) := by
  unfold opening header between
  simp only [String.toList_append, shown_number, List.append_assoc]
  simp only [shown_text]

theorem entry_chars (grid : String) (step worker : Nat) :
    (entry grid step worker).toList = lead ++ grid.toList ++ ending step worker := by
  have dash : "-".toList = ['-'] := rfl
  have underscore : "_".toList = ['_'] := rfl
  have suffix : ".json".toList ++ "\"/>".toList = ".json\"/>".toList := rfl
  unfold entry Piece.fileName lead ending
  simp only [String.toList_append, shown_number, shown_text]
  rw [dash, underscore, ← suffix]
  simp only [List.append_assoc, List.cons_append, List.nil_append]

theorem between_quiet (step : Nat) (time : Float) (member : c ∈ between step time) :
    c ≠ '_' ∧ c ≠ '<' := by
  have first : ∀ c ∈ "\" step=\"".toList, c ≠ '_' ∧ c ≠ '<' := Decimal.each_char (by decide)
  have second : ∀ c ∈ "\" time=\"".toList, c ≠ '_' ∧ c ≠ '<' := Decimal.each_char (by decide)
  have last : ∀ c ∈ "\">\n".toList, c ≠ '_' ∧ c ≠ '<' := Decimal.each_char (by decide)
  have number : ∀ c, Decimal.Numeral c → c ≠ '_' ∧ c ≠ '<' := by
    rintro c numeral
    constructor <;> rintro rfl <;> exact absurd numeral (by decide)
  unfold between at member
  rcases List.mem_append.mp member with member | closing
  · rcases List.mem_append.mp member with member | text
    · rcases List.mem_append.mp member with member | fixed
      · rcases List.mem_append.mp member with fixed | digit
        · exact first c fixed
        · exact number c (.inl (Decimal.digitChars_digit digit))
      · exact second c fixed
    · exact number c (Decimal.text_numeral time text)
  · exact last c closing

theorem occurs_char {pattern text : List Char} (occurs : pattern <+: text.drop k)
    (inside : i < pattern.length) : text[k + i]? = pattern[i]? := by
  obtain ⟨behind, joined⟩ := occurs
  rw [← List.getElem?_drop, ← joined, List.getElem?_append_left inside]

theorem lead_not_in_header : ∀ k < header.length, ∃ i < lead.length,
    k + i < header.length ∧ header[k + i]? ≠ lead[i]? := by
  decide

theorem template_chars (grid : String) (step : Nat) (time : Float) :
    (template grid step time).toList = (opening grid step time).toList ++
      ((entry grid step 0).toList ++ '\n' :: closing.toList) := by
  have lineBreak : "\n".toList = ['\n'] := rfl
  unfold template
  simp only [String.toList_append, lineBreak, List.append_assoc, List.cons_append, List.nil_append]

theorem template_behind (grid : String) (step : Nat) (time : Float) (inside : n ≤ grid.toList.length) :
    (template grid step time).toList.drop (header.length + n) = grid.toList.drop n ++
      (between step time ++ (entry grid step 0).toList ++ '\n' :: closing.toList) := by
  rw [template_chars, opening_chars, List.append_assoc, ← List.drop_drop, List.drop_left,
    List.append_assoc grid.toList, List.drop_append_of_le_length inside, List.append_assoc]

theorem between_long (step : Nat) (time : Float) :
    ('-' :: Decimal.digitChars step).length < (between step time).length := by
  have fixed : 2 ≤ "\" step=\"".toList.length := by decide
  unfold between
  rw [List.append_assoc, List.append_assoc, List.append_assoc, List.length_append,
    List.length_append, List.length_cons]
  omega

theorem between_unmarked (step : Nat) (time : Float) : '_' ∉ between step time ++ lead := by
  intro member
  rcases List.mem_append.mp member with inside | inside
  · exact (between_quiet step time inside).1 rfl
  · exact absurd inside (by decide)

theorem ending_unquoted (step : Nat) : '"' ∉ '-' :: Decimal.digitChars step := by
  intro member
  rcases List.mem_cons.mp member with sign | digit
  · exact absurd sign (by decide)
  · exact Decimal.digits_without rfl digit

-- No occurrence begins in front of the entry: not among the fixed characters, which begin
-- differently; not inside the name; not behind it, where nothing begins like an entry.
theorem entry_not_in_opening (grid : String) (step : Nat) (time : Float) (k : Nat)
    (before : k < (opening grid step time).toList.length) :
    ¬ (entry grid step 0).toList <+: (template grid step time).toList.drop k := by
  intro occurs
  rw [opening_chars, List.length_append] at before
  by_cases inHeader : k < header.length
  · obtain ⟨i, short, within, differs⟩ := lead_not_in_header k inHeader
    rw [entry_chars, template_chars, opening_chars, List.append_assoc lead] at occurs
    have shown := occurs_char occurs (i := i) (by rw [List.length_append]; omega)
    rw [List.append_assoc, List.getElem?_append_left within, List.getElem?_append_left short] at shown
    exact differs shown
  · obtain ⟨n, rfl⟩ := Nat.exists_eq_add_of_le (Nat.le_of_not_lt inHeader)
    by_cases inName : n ≤ grid.toList.length
    · have closing : lead = lead.dropLast ++ ['"'] := by decide
      have split : grid.toList = grid.toList.take n ++ grid.toList.drop n :=
        (List.take_append_drop ..).symm
      rw [template_behind grid step time inName, entry_chars] at occurs
      exact no_overlap (between_unmarked step time) closing (ending_unquoted step)
        (between_long step time) split occurs
    · have entryHead : (entry grid step 0).toList[0]? = some '<' := by
        rw [entry_chars]
        rfl
      have nonempty := (List.getElem?_eq_some_iff.mp entryHead).1
      have shown := occurs_char occurs nonempty
      rw [entryHead, template_chars, opening_chars, List.append_assoc, Nat.add_zero,
        List.getElem?_append_right (by omega), List.append_assoc,
        List.getElem?_append_right (by omega), List.getElem?_append_left (by
          simp only [List.length_append] at before
          omega)] at shown
      exact (between_quiet step time (List.mem_of_getElem? shown)).2 rfl

theorem line_chars (grid : String) (step worker : Nat) :
    s!"<Piece Source=\"{grid}-{step}_{worker}.json\"/>\n".toList =
      (entry grid step worker).toList ++ ['\n'] := by
  have suffix : ".json\"/>\n".toList = ".json".toList ++ "\"/>".toList ++ ['\n'] := rfl
  unfold entry Piece.fileName
  simp only [String.toList_append, suffix, shown_text, List.append_assoc]

theorem listing_chars (grid : String) (step : Nat) (time : Float) (pieces : Nat) :
    (listing grid step time pieces).toList =
      (opening grid step time).toList ++ entries grid step pieces ++ closing.toList := by
  unfold listing entries
  rw [String.toList_append, String.toList_append, String.toList_join, List.flatMap_map]
  simp only [line_chars]

-- The entry of piece 0 is replaced where it was written, whatever the name of the grid is.
theorem template_expands (grid : String) (step : Nat) (time : Float) (pieces : Nat) :
    expand? (template grid step time) grid step pieces = some (listing grid step time pieces) := by
  have found : splitAtFirst (entry grid step 0).toList (template grid step time).toList =
      some ((opening grid step time).toList, '\n' :: closing.toList) :=
    splitAtFirst_exact.mpr ⟨by rw [template_chars, List.append_assoc],
      fun k before => entry_not_in_opening grid step time k before⟩
  unfold expand?
  simp only [found, Option.map_some, dropLineBreak]
  rw [← listing_chars, String.ofList_toList]

end InSitu.PieceIndex
