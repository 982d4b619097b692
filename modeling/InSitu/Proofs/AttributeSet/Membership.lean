import InSitu.AttributeSet
import Mathlib.Data.Nat.Bitwise
namespace InSitu.AttributeSet

def bit (words : List Word) (number : Nat) : Bool :=
  (words[number / 64]?.getD 0).getLsbD (number % 64)

theorem mask_power (number : Nat) : mask number = BitVec.twoPow 64 (number % 64) :=
  (BitVec.twoPow_eq ..).symm

theorem mask_bit (word : Word) (number : Nat) :
    (word &&& mask number != 0) = word.getLsbD (number % 64) := by
  have inside : number % 64 < 64 := Nat.mod_lt _ (by decide)
  have positive : (BitVec.twoPow 64 (number % 64)).toNat ≠ 0 := by
    rw [BitVec.toNat_twoPow_of_lt inside]
    exact (Nat.two_pow_pos _).ne'
  rw [mask_power, BitVec.and_twoPow]
  split
  · rename_i held
    rw [held, bne_iff_ne]
    exact fun zero => positive (congrArg BitVec.toNat zero)
  · rename_i unheld
    simpa using unheld

theorem contains_bit (set : AttributeSet) (number : Nat) :
    set.contains number = bit set.words number := by
  unfold contains bit
  cases set.words[number / 64]? with
  | none => simp
  | some word => exact mask_bit word number

theorem low_bits {count : Nat} (below : count < 64) (place : Nat) :
    (((1 : Word) <<< count) - 1).getLsbD place = decide (place < count) := by
  have positive : 1 ≤ 2 ^ count := Nat.one_le_two_pow
  have value : (((1 : Word) <<< count) - 1).toNat = 2 ^ count - 1 := by
    show (BitVec.twoPow 64 count - 1).toNat = _
    rw [BitVec.toNat_sub_of_le (by simp [BitVec.le_def, BitVec.toNat_twoPow_of_lt below, positive]),
      BitVec.toNat_twoPow_of_lt below]
    rfl
  rw [BitVec.getLsbD, value, Nat.testBit_two_pow_sub_one]

theorem first_contains (count number : Nat) :
    (first count).contains number = decide (number < count) := by
  have inside : number % 64 < 64 := Nat.mod_lt _ (by decide)
  rw [contains_bit, bit, first]
  rcases Nat.lt_trichotomy (number / 64) (count / 64) with full | last | behind
  · have below : number < count := by omega
    have ones : (BitVec.allOnes 64).getLsbD (number % 64) = true := by
      rw [BitVec.getLsbD_allOnes, decide_eq_true inside]
    split <;> simp only [List.getElem?_append_left, List.length_replicate, full,
      List.getElem?_replicate_of_lt, Option.getD_some, ones, below, decide_true]
  · split
    · have above : ¬ number < count := by omega
      simp [last, above]
    · rw [last, List.getElem?_append_right (by simp)]
      simp only [List.length_replicate, Nat.sub_self, List.getElem?_cons_zero, Option.getD_some]
      rw [low_bits (Nat.mod_lt _ (by decide))]
      congr 1
      apply propext
      omega
  · have above : ¬ number < count := by omega
    split
    · simp [above, Nat.le_of_lt behind]
    · rw [List.getElem?_eq_none (by simp; omega)]
      simp [above]

theorem inserted_word (mask : Word) (place : Nat) (words : List Word) (other : Nat) :
    (insertAt mask place words)[other]?.getD 0 =
      if other = place then words[other]?.getD 0 ||| mask else words[other]?.getD 0 := by
  induction place generalizing words other with
  | zero =>
    cases words with
    | nil => cases other <;> simp [insertAt]
    | cons word rest => cases other <;> simp [insertAt]
  | succ place ih =>
    cases words with
    | nil =>
      cases other with
      | zero => simp [insertAt]
      | succ other => simpa [insertAt] using ih [] other
    | cons word rest =>
      cases other with
      | zero => simp [insertAt]
      | succ other => simpa [insertAt] using ih rest other

theorem insert_contains (set : AttributeSet) (added number : Nat) :
    (set.insert added).contains number = (decide (number = added) || set.contains number) := by
  have inside : added % 64 < 64 := Nat.mod_lt _ (by decide)
  simp only [contains_bit, bit, insert, inserted_word]
  split
  · rename_i sameWord
    rw [BitVec.getLsbD_or, mask_power, BitVec.getLsbD_twoPow, decide_eq_true inside, Bool.true_and,
      Bool.or_comm]
    congr 1
    apply decide_eq_decide.mpr
    omega
  · rename_i otherWord
    have apart : number ≠ added := fun same => otherWord (congrArg (· / 64) same)
    rw [decide_eq_false apart, Bool.false_or]

theorem insertAll_contains (set : AttributeSet) (added : List Nat) (number : Nat) :
    (added.foldl insert set).contains number = (decide (number ∈ added) || set.contains number) := by
  induction added generalizing set with
  | nil => simp
  | cons first rest ih =>
    rw [List.foldl_cons, ih, insert_contains]
    simp only [List.mem_cons, Bool.decide_or]
    rw [← Bool.or_assoc, Bool.or_comm (decide (number ∈ rest))]

theorem empty_contains (number : Nat) : empty.contains number = false := by
  simp [contains, empty]

theorem ofList_contains (ids : List Nat) (number : Nat) :
    (ofList ids).contains number = decide (number ∈ ids) := by
  rw [ofList, insertAll_contains, empty_contains, Bool.or_false]

theorem cleared_word (words others : List Word) (place : Nat) :
    (clearWords words others)[place]?.getD 0 =
      words[place]?.getD 0 &&& ~~~(others[place]?.getD 0) := by
  induction words generalizing others place with
  | nil => simp [clearWords]
  | cons word rest ih =>
    cases others with
    | nil =>
      show (word :: rest)[place]?.getD 0 = (word :: rest)[place]?.getD 0 &&& ~~~(0#64)
      rw [BitVec.not_zero, BitVec.and_allOnes]
    | cons gone others =>
      cases place with
      | zero => simp [clearWords]
      | succ place => simpa [clearWords] using ih others place

theorem dropped_word (words : List Word) (place : Nat) :
    (dropZeros words)[place]?.getD 0 = words[place]?.getD 0 := by
  have whole := List.takeWhile_append_dropWhile (p := (· == 0)) (l := words.reverse)
  have split : words = dropZeros words ++ (words.reverse.takeWhile (· == 0)).reverse := by
    rw [dropZeros, ← List.reverse_append, whole, List.reverse_reverse]
  have zeros : ∀ word ∈ (words.reverse.takeWhile (· == 0)).reverse, word = 0 := by
    intro word member
    exact eq_of_beq (List.all_eq_true.mp List.all_takeWhile word (List.mem_reverse.mp member))
  generalize (words.reverse.takeWhile (· == 0)).reverse = gone at split zeros
  rw [congrArg (·[place]?) split]
  by_cases kept : place < (dropZeros words).length
  · rw [List.getElem?_append_left kept]
  · rw [List.getElem?_append_right (Nat.le_of_not_lt kept),
      List.getElem?_eq_none (Nat.le_of_not_lt kept)]
    cases there : gone[place - (dropZeros words).length]? with
    | none => rfl
    | some word => exact (zeros word (List.mem_of_getElem? there)).symm

theorem difference_contains (set other : AttributeSet) (number : Nat) :
    (set.difference other).contains number = (set.contains number && !other.contains number) := by
  have inside : number % 64 < 64 := Nat.mod_lt _ (by decide)
  simp only [contains_bit, bit, difference, dropped_word, cleared_word, BitVec.getLsbD_and,
    BitVec.getLsbD_not, inside, decide_true, Bool.true_and]

theorem bits_none {word : Word} : (setBits word).head? = none ↔ word = 0 := by
  rw [List.head?_eq_none_iff, setBits, List.filter_eq_nil_iff]
  constructor
  · intro unset
    apply BitVec.eq_of_getLsbD_eq
    intro place inside
    simpa using unset place (List.mem_range.mpr inside)
  · rintro rfl place -
    simp

-- A cursor goes on to the next word only when nothing is left of the one before.
theorem nextFrom_none (base : Nat) (pending : Word) (later : List Word) :
    (nextFrom base pending later).1 = none ↔ ∀ word ∈ pending :: later, word = 0 := by
  induction later generalizing base pending with
  | nil =>
    unfold nextFrom
    rw [List.forall_mem_singleton, ← bits_none]
    cases (setBits pending).head? <;> simp
  | cons word rest ih =>
    unfold nextFrom
    rw [List.forall_mem_cons, ← ih (base + 1) word, ← bits_none]
    cases (setBits pending).head? <;> simp

theorem words_zero (set : AttributeSet) :
    (∀ word ∈ set.words, word = 0) ↔ ∀ number, set.contains number = false := by
  constructor
  · intro each number
    rw [contains_bit, bit]
    cases there : set.words[number / 64]? with
    | none => simp
    | some word => simp [each word (List.mem_of_getElem? there)]
  · intro none word member
    obtain ⟨index, there⟩ := List.mem_iff_getElem?.mp member
    apply BitVec.eq_of_getLsbD_eq
    intro place inside
    have number : (64 * index + place) / 64 = index ∧ (64 * index + place) % 64 = place := by omega
    have unset := none (64 * index + place)
    rw [contains_bit, bit, number.1, number.2, there] at unset
    simpa using unset

theorem isEmpty_exact (set : AttributeSet) :
    set.isEmpty = true ↔ ∀ number, set.contains number = false := by
  rw [← words_zero, isEmpty, List.all_eq_true]
  simp only [beq_iff_eq]

theorem same_exact (set other : AttributeSet) :
    (set == other) = true ↔ ∀ number, set.contains number = other.contains number := by
  show ((set.difference other).isEmpty && (other.difference set).isEmpty) = true ↔ _
  rw [Bool.and_eq_true, isEmpty_exact, isEmpty_exact]
  simp only [difference_contains]
  constructor
  · intro differences number
    obtain ⟨left, right⟩ := And.intro (differences.1 number) (differences.2 number)
    revert left right
    cases set.contains number <;> cases other.contains number <;> decide
  · intro same
    simp [same]

theorem next_none (set : AttributeSet) :
    set.cursor.next.1 = none ↔ ∀ number, set.contains number = false := by
  rw [← words_zero]
  unfold cursor Cursor.next
  cases set.words with
  | nil => simp [nextFrom_none]
  | cons word later => exact nextFrom_none 0 word later

end InSitu.AttributeSet
