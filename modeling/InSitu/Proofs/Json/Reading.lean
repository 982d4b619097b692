import InSitu.Json.Printer
import InSitu.Proofs.Json.Numeral
import Mathlib.Data.List.Forall2
namespace InSitu.Json

def run (r : Reader) (chars : List Char) : Option Reader := chars.foldlM step r

theorem run_nil (r : Reader) : run r [] = some r := rfl

theorem run_cons (r : Reader) (c : Char) (rest : List Char) :
    run r (c :: rest) = (step r c).bind (run · rest) := List.foldlM_cons

theorem run_append (r : Reader) (front behind : List Char) :
    run r (front ++ behind) = (run r front).bind (run · behind) := List.foldlM_append

theorem run_through {front : List Char} (first : run r front = some reached) (behind : List Char) :
    run r (front ++ behind) = run reached behind := by
  rw [run_append, first, Option.bind_some]

theorem run_step (first : step r c = some reached) (rest : List Char) :
    run r (c :: rest) = run reached rest := by
  rw [run_cons, first, Option.bind_some]

-- What stands for a character in a string: itself, or the number of an escape.
inductive Denotes : TextUnit → Char → Prop where
  | char : Denotes (.char c) c
  | escape : Denotes (.escape c.toNat) c

@[simp] theorem isHigh_char (c : Char) : isHigh c.toNat = false := by
  have valid := c.valid
  simp only [UInt32.isValidChar, Nat.isValidChar] at valid
  show isHigh c.val.toNat = false
  simp only [isHigh, Bool.and_eq_false_iff, decide_eq_false_iff_not]
  omega

@[simp] theorem isLow_char (c : Char) : isLow c.toNat = false := by
  have valid := c.valid
  simp only [UInt32.isValidChar, Nat.isValidChar] at valid
  show isLow c.val.toNat = false
  simp only [isLow, Bool.and_eq_false_iff, decide_eq_false_iff_not]
  omega

theorem joinUnits_denoted {units : List TextUnit} {chars : List Char}
    (denoted : List.Forall₂ Denotes units chars) : joinUnits units = some chars := by
  induction denoted with
  | nil => rfl
  | cons first rest ih =>
    cases first with
    | char => simp [joinUnits, ih]
    | escape =>
      cases rest with
      | nil => simp [joinUnits]
      | cons second later =>
        cases second with
        | char =>
          simp only [joinUnits] at ih ⊢
          simp [ih]
        | escape =>
          rw [joinUnits]
          simp [ih]

section Strings
variable {asKey : Bool} {units : List TextUnit} {frames : List Frame}

theorem hexValue_digit : ∀ n < 16, hexValue? (hexDigit n) = some n := by decide

theorem escaped_read (c : Char) (asKey : Bool) (units : List TextUnit) (frames : List Frame) :
    ∃ unit, Denotes unit c ∧ run ⟨.text asKey units .plain, frames⟩ (escaped c) =
      some ⟨.text asKey (unit :: units) .plain, frames⟩ := by
  unfold escaped
  split
  · rename_i same
    subst same
    exact ⟨_, .char, rfl⟩
  split
  · rename_i same
    subst same
    exact ⟨_, .char, rfl⟩
  split
  · rename_i same
    subst same
    exact ⟨_, .char, rfl⟩
  split
  · rename_i same
    subst same
    exact ⟨_, .char, rfl⟩
  split
  · rename_i same
    subst same
    exact ⟨_, .char, rfl⟩
  split
  · rename_i same
    subst same
    exact ⟨_, .char, rfl⟩
  split
  · rename_i same
    subst same
    exact ⟨_, .char, rfl⟩
  split
  · rename_i control
    refine ⟨_, .escape, ?_⟩
    have high := hexValue_digit (c.toNat / 16) (by omega)
    have low := hexValue_digit (c.toNat % 16) (by omega)
    have zero : hexValue? '0' = some 0 := rfl
    have number : 16 * (c.toNat / 16) + c.toNat % 16 = c.toNat := Nat.div_add_mod _ 16
    simp [run, step, stepText, high, low, zero, number]
  · rename_i quote backslash _ _ _ _ _ printed
    refine ⟨_, .char, ?_⟩
    simp [run, step, stepText, quote, backslash, printed]

theorem content_read (content : List Char) (asKey : Bool) (frames : List Frame) :
    ∀ units, ∃ added, List.Forall₂ Denotes added content ∧
      run ⟨.text asKey units .plain, frames⟩ (content.flatMap escaped) =
        some ⟨.text asKey (added.reverse ++ units) .plain, frames⟩ := by
  induction content with
  | nil => exact fun units => ⟨[], .nil, rfl⟩
  | cons c rest ih =>
    intro units
    obtain ⟨unit, denotes, first⟩ := escaped_read c asKey units frames
    obtain ⟨added, denoted, later⟩ := ih (unit :: units)
    refine ⟨unit :: added, .cons denotes denoted, ?_⟩
    rw [List.flatMap_cons, run_through first, later]
    simp

theorem text_read (content : String) (asKey : Bool) (frames : List Frame) :
    run ⟨.text asKey [] .plain, frames⟩ (content.toList.flatMap escaped ++ ['"']) =
      if asKey then some ⟨.colon (some content), frames⟩ else complete (.text content) frames := by
  obtain ⟨added, denoted, through⟩ := content_read content.toList asKey frames []
  have joined : (joinUnits (added.reverse ++ []).reverse).map String.ofList = some content := by
    rw [List.append_nil, List.reverse_reverse, joinUnits_denoted denoted, Option.map_some,
      String.ofList_toList]
  rw [run_through through]
  simp only [run_cons, run_nil, step, stepText, if_true, closeText, joined]
  cases asKey with
  | true => rfl
  | false => exact Option.bind_fun_some _

theorem unpaired_read (asKey : Bool) (frames : List Frame) :
    run ⟨.text asKey [] .plain, frames⟩ unpairedText.tail =
      if asKey then some ⟨.colon none, frames⟩ else complete .unpaired frames := by
  cases asKey with
  | true => rfl
  | false => exact Option.bind_fun_some (complete .unpaired frames)

end Strings

def Mode.between : Mode → Bool
  | .text _ _ _ | .number _ | .word _ => false
  | _ => true

theorem step_between (between : mode.between = true) :
    step ⟨mode, frames⟩ c = advance ⟨mode, frames⟩ c := by
  cases mode with
  | text | number | word => cases between
  | _ => rfl

theorem run_blanks (between : mode.between = true) (blank : ∀ c ∈ blanks, isBlank c = true) :
    run ⟨mode, frames⟩ blanks = some ⟨mode, frames⟩ := by
  induction blanks with
  | nil => rfl
  | cons c rest ih =>
    have passed : step ⟨mode, frames⟩ c = some ⟨mode, frames⟩ := by
      simp [step_between between, advance, blank c List.mem_cons_self]
    rw [run_step passed]
    exact ih fun other member => blank other (List.mem_cons_of_mem _ member)

theorem complete_between (done : complete value frames = some r) :
    r.mode.between = true ∧ settle r = some r := by
  cases frames with
  | nil =>
    cases done
    exact ⟨rfl, rfl⟩
  | cons frame outer =>
    cases frame <;> cases done <;> exact ⟨rfl, rfl⟩

-- No number and no word goes on in this character.
def Ends (c : Char) : Prop := isNumeralChar c = false ∧ c.isAlpha = false

theorem blank_ends (blank : isBlank c = true) : Ends c := by
  simp only [isBlank, Bool.or_eq_true, decide_eq_true_eq] at blank
  rcases blank with ((rfl | rfl) | rfl) | rfl <;> exact ⟨rfl, rfl⟩

theorem run_settled (settled : settle r = some reached) (between : reached.mode.between = true)
    (ends : Ends c) (rest : List Char) : run r (c :: rest) = run reached (c :: rest) := by
  rw [run_cons, run_cons]
  congr 1
  obtain ⟨mode, frames⟩ := reached
  rw [step_between between]
  unfold step
  split
  · rename_i text
    simp only [settle, text] at settled
    cases settled
    rw [text] at between
    cases between
  · rw [if_neg (by simp [ends.1]), settled, Option.bind_some]
  · rw [if_neg (by simp [ends.2]), settled, Option.bind_some]
  · rename_i text number word
    unfold settle at settled
    split at settled
    · rename_i spelling same
      exact absurd same (number spelling)
    · rename_i spelling same
      exact absurd same (word spelling)
    · cases settled
      rfl

theorem run_behind (settled : settle r = some ⟨mode, frames⟩) (between : mode.between = true)
    (blank : ∀ c ∈ blanks, isBlank c = true) (ends : Ends c) (rest : List Char) :
    run r (blanks ++ c :: rest) = run ⟨mode, frames⟩ (c :: rest) := by
  cases blanks with
  | nil => exact run_settled settled between ends rest
  | cons b others =>
    have first := blank_ends (blank b List.mem_cons_self)
    rw [List.cons_append, run_settled settled between first, ← List.cons_append]
    exact run_through (run_blanks between blank) _

def Awaits (mode : Mode) : Prop := mode = .value ∨ mode = .firstItem

theorem awaits_starts (awaits : Awaits mode) (printed : isBlank c = false) (apart : c ≠ ']') :
    step ⟨mode, frames⟩ c = startValue c frames := by
  rcases awaits with rfl | rfl <;> simp [step, advance, printed, apart]

def Printed (value : Json) (text : List Char) : Prop :=
  ∀ mode frames reached, Awaits mode → complete value frames = some reached →
    ∃ r, run ⟨mode, frames⟩ text = some r ∧ settle r = some reached

theorem closed_printed {entered : List Frame → Reader}
    (opened : ∀ frames, startValue c frames = some (entered frames))
    (printed : isBlank c = false) (apart : c ≠ ']')
    (closed : ∀ frames, run (entered frames) rest = complete value frames) :
    Printed value (c :: rest) := by
  intro mode frames reached awaits done
  refine ⟨reached, ?_, (complete_between done).2⟩
  rw [run_step ((awaits_starts awaits printed apart).trans (opened frames)), closed, done]

theorem text_printed (content : String) : Printed (.text content) (quoted content) :=
  closed_printed (fun _ => rfl) rfl (by decide) fun frames => text_read content false frames

theorem unpaired_printed : Printed .unpaired unpairedText :=
  closed_printed (fun _ => rfl) rfl (by decide) fun frames => unpaired_read false frames

theorem number_read (chars : ∀ c ∈ rest, isNumeralChar c = true) (seen : List Char) :
    run ⟨.number seen, frames⟩ rest = some ⟨.number (rest.reverse ++ seen), frames⟩ := by
  induction rest generalizing seen with
  | nil => rfl
  | cons c rest ih =>
    have onward : step ⟨.number seen, frames⟩ c = some ⟨.number (c :: seen), frames⟩ := by
      simp [step, chars c List.mem_cons_self]
    rw [run_step onward, ih fun other member => chars other (List.mem_cons_of_mem _ member)]
    simp

theorem number_printed (valid : (Numeral.ofChars? spelling).isSome) :
    Printed (.number spelling) spelling := by
  intro mode frames reached awaits done
  obtain ⟨c, rest, rfl, lead, chars⟩ := ofChars_chars valid
  have started : step ⟨mode, frames⟩ c = some ⟨.number [c], frames⟩ := by
    rcases lead with rfl | digit
    · rw [awaits_starts awaits rfl (by decide)]
      rfl
    · have apart : ∀ mark, mark.isDigit = false → c ≠ mark := by
        intro mark other same
        rw [same, other] at digit
        cases digit
      rw [awaits_starts awaits (by simp [isBlank, apart]) (apart _ rfl)]
      simp [startValue, apart, digit]
  refine ⟨_, (run_step started rest).trans (number_read chars [c]), ?_⟩
  simp only [settle, List.reverse_append, List.reverse_reverse, List.reverse_singleton,
    List.singleton_append, if_pos valid]
  exact done

theorem null_printed : Printed .null ['n', 'u', 'l', 'l'] := by
  intro mode frames reached awaits done
  rcases awaits with rfl | rfl <;> exact ⟨_, rfl, done⟩

theorem bool_printed (value : Bool) : Printed (.bool value) (print style depth (.bool value)) := by
  intro mode frames reached awaits done
  cases value <;> rcases awaits with rfl | rfl <;> exact ⟨_, rfl, done⟩

-- What arrays and objects have in common: parts that are gathered in a frame, with commas between
-- them and a mark of its own on either side.
structure Enclosing (α : Type) where
  gathered : List α → Frame
  whole : List α → Json
  left : Char
  right : Char
  first : Mode
  next : Mode
  opens : ∀ outer, startValue left outer = some ⟨first, gathered [] :: outer⟩
  printed : isBlank left = false ∧ left ≠ ']'
  between : first.between = true ∧ next.between = true
  follows : ∀ parts outer,
    step ⟨.separator, gathered parts :: outer⟩ ',' = some ⟨next, gathered parts :: outer⟩
  closes : ∀ parts outer,
    step ⟨.separator, gathered parts :: outer⟩ right = complete (whole parts.reverse) outer
  empty : ∀ outer, step ⟨first, gathered [] :: outer⟩ right = complete (whole []) outer
  ends : Ends right

def Enclosing.array : Enclosing Json where
  gathered := .array
  whole := .array
  left := '['
  right := ']'
  first := .firstItem
  next := .value
  opens := fun _ => rfl
  printed := by decide
  between := ⟨rfl, rfl⟩
  follows := fun _ _ => rfl
  closes := fun _ _ => rfl
  empty := fun _ => rfl
  ends := ⟨rfl, rfl⟩

def Enclosing.object : Enclosing (Option String × Json) where
  gathered := .object
  whole := .object
  left := '{'
  right := '}'
  first := .firstKey
  next := .key
  opens := fun _ => rfl
  printed := by decide
  between := ⟨rfl, rfl⟩
  follows := fun _ _ => rfl
  closes := fun _ _ => rfl
  empty := fun _ => rfl
  ends := ⟨rfl, rfl⟩

namespace Enclosing
variable {e : Enclosing α}

def Part (e : Enclosing α) (part : α) (text : List Char) : Prop :=
  ∀ mode, mode = e.first ∨ mode = e.next → ∀ parts outer, ∃ r,
    run ⟨mode, e.gathered parts :: outer⟩ text = some r ∧
    settle r = some ⟨.separator, e.gathered (part :: parts) :: outer⟩

theorem parts_read {blanks ending : List Char} {parts : List α} {texts : List (List Char)}
    (blank : ∀ c ∈ blanks, isBlank c = true) (ended : ∀ c ∈ ending, isBlank c = true)
    (read : List.Forall₂ e.Part parts texts) (some_part : parts ≠ []) :
    ∀ mode, mode = e.first ∨ mode = e.next → ∀ seen outer,
      run ⟨mode, e.gathered seen :: outer⟩
          (List.intercalate (',' :: blanks) texts ++ (ending ++ [e.right])) =
        complete (e.whole (seen.reverse ++ parts)) outer := by
  induction read with
  | nil => exact absurd rfl some_part
  | @cons part text parts texts first rest ih =>
    intro mode awaited seen outer
    obtain ⟨r, through, settled⟩ := first mode awaited seen outer
    cases rest with
    | nil =>
      rw [List.intercalate_singleton, run_through through, run_behind settled rfl ended e.ends,
        run_cons, e.closes, List.reverse_cons]
      exact Option.bind_fun_some _
    | cons second later =>
      rw [List.intercalate_cons_cons, List.append_assoc, List.append_assoc, run_through through,
        List.cons_append, run_settled settled rfl ⟨rfl, rfl⟩, run_step (e.follows _ _),
        run_through (run_blanks e.between.2 blank), ih (by simp) e.next (.inr rfl)]
      simp

theorem enclosed_printed {style : Style} {parts : List α} {texts : List (List Char)}
    (blank : ∀ depth, ∀ c ∈ style.lineBreak depth, isBlank c = true) (depth : Nat)
    (read : List.Forall₂ e.Part parts texts) :
    Printed (e.whole parts) (enclosed style depth e.left e.right texts) := by
  cases read with
  | nil =>
    refine closed_printed e.opens e.printed.1 e.printed.2 fun outer => ?_
    rw [run_cons, e.empty]
    exact Option.bind_fun_some _
  | cons first rest =>
    refine closed_printed e.opens e.printed.1 e.printed.2 fun outer => ?_
    have inside := parts_read (blank (depth + 1)) (blank depth) (.cons first rest) (by simp)
      e.first (.inl rfl) [] outer
    simp only [List.append_eq, List.append_assoc]
    rw [run_through (run_blanks e.between.1 (blank (depth + 1)))]
    exact inside

end Enclosing

-- Between tokens a style has blanks, and nothing in front of a colon.
structure Style.Blank (style : Style) : Prop where
  lineBreak : ∀ depth, ∀ c ∈ style.lineBreak depth, isBlank c = true
  colon : ∃ blanks, style.colon = ':' :: blanks ∧ ∀ c ∈ blanks, isBlank c = true

theorem key_read (name : Option String) (awaited : mode = .firstKey ∨ mode = .key)
    (frames : List Frame) : run ⟨mode, frames⟩ (key name) = some ⟨.colon name, frames⟩ := by
  have opened : step ⟨mode, frames⟩ '"' = some ⟨.text true [] .plain, frames⟩ := by
    rcases awaited with rfl | rfl <;> rfl
  cases name with
  | none => exact (run_step opened _).trans (unpaired_read true frames)
  | some content => exact (run_step opened _).trans (text_read content true frames)

theorem item_part (printed : Printed value written) : Enclosing.array.Part value written := by
  intro mode awaited parts outer
  exact printed mode _ _ awaited.symm rfl

theorem member_part {style : Style} (blank : style.Blank) (name : Option String)
    (printed : Printed value written) :
    Enclosing.object.Part (name, value) (key name ++ style.colon ++ written) := by
  intro mode awaited parts outer
  obtain ⟨blanks, colon, inside⟩ := blank.colon
  obtain ⟨r, through, settled⟩ := printed .value (.member parts name :: outer) _ (.inl rfl) rfl
  refine ⟨r, ?_, settled⟩
  have passed : step ⟨.colon name, Enclosing.object.gathered parts :: outer⟩ ':' =
      some ⟨.value, .member parts name :: outer⟩ := rfl
  rw [List.append_assoc, run_through (key_read name awaited _), colon, List.cons_append,
    run_step passed, run_through (run_blanks rfl inside), through]

inductive Spelled : Json → Prop where
  | null : Spelled .null
  | bool : Spelled (.bool value)
  | number : (Numeral.ofChars? spelling).isSome → Spelled (.number spelling)
  | text : Spelled (.text content)
  | unpaired : Spelled .unpaired
  | array : (∀ item ∈ items, Spelled item) → Spelled (.array items)
  | object : (∀ member ∈ members, Spelled member.2) → Spelled (.object members)

theorem printItems_map (style : Style) (depth : Nat) (items : List Json) :
    printItems style depth items = items.map (print style depth) := by
  induction items with
  | nil => rfl
  | cons item rest ih => simp [printItems, ih]

theorem printMembers_map (style : Style) (depth : Nat) (members : List (Option String × Json)) :
    printMembers style depth members =
      members.map fun member => key member.1 ++ style.colon ++ print style depth member.2 := by
  induction members with
  | nil => rfl
  | cons member rest ih => simp [printMembers, ih]

theorem print_printed {style : Style} (blank : style.Blank) (spelled : Spelled value) :
    ∀ depth, Printed value (print style depth value) := by
  induction spelled with
  | null => exact fun depth => null_printed
  | bool => exact fun depth => bool_printed _
  | number valid => exact fun depth => number_printed valid
  | text => exact fun depth => text_printed _
  | unpaired => exact fun depth => unpaired_printed
  | array _ ih =>
    intro depth
    rw [print, printItems_map]
    refine Enclosing.enclosed_printed (e := .array) blank.lineBreak depth ?_
    rw [List.forall₂_map_right_iff, List.forall₂_same]
    exact fun item member => item_part (ih item member (depth + 1))
  | object _ ih =>
    intro depth
    rw [print, printMembers_map]
    refine Enclosing.enclosed_printed (e := .object) blank.lineBreak depth ?_
    rw [List.forall₂_map_right_iff, List.forall₂_same]
    exact fun pair member => member_part blank pair.1 (ih pair member (depth + 1))

theorem read_printed {style : Style} (blank : style.Blank) (spelled : Spelled value) :
    read? (.ofList (print style 0 value)) = some value := by
  obtain ⟨r, through, settled⟩ :=
    print_printed blank spelled 0 .value [] ⟨.finished value, []⟩ (.inl rfl) rfl
  have reached : (print style 0 value).foldlM step Reader.initial = some r := through
  rw [read?, String.toList_ofList, reached, Option.bind_some, finish, settled]
  rfl

theorem compact_blank : Style.compact.Blank :=
  ⟨by simp [Style.compact], ⟨[], rfl, by simp⟩⟩

theorem indented_blank : Style.indented.Blank := by
  refine ⟨?_, ⟨[' '], rfl, by simp [isBlank]⟩⟩
  intro depth c member
  rcases List.mem_cons.mp member with rfl | space
  · rfl
  · rw [List.eq_of_mem_replicate space]
    rfl

theorem read_compact (spelled : Spelled value) : read? value.compact = some value :=
  read_printed compact_blank spelled

theorem read_indented (spelled : Spelled value) : read? value.indented = some value :=
  read_printed indented_blank spelled

end InSitu.Json
