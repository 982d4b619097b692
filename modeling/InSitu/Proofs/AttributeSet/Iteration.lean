import InSitu.Proofs.AttributeSet.Origin
import Mathlib.Data.List.Sort
namespace InSitu.AttributeSet

theorem cleared_bit {number : Nat} (positive : 0 < number) (place : Nat) :
    (number &&& (number - 1)).testBit place = true ↔
      number.testBit place = true ∧ ∃ lower < place, number.testBit lower = true := by
  induction place generalizing number with
  | zero =>
    rw [Nat.testBit_and]
    simp only [Nat.testBit_zero, Bool.and_eq_true, decide_eq_true_eq]
    constructor
    · intro bits
      omega
    · rintro ⟨-, lower, below, -⟩
      cases below
  | succ place ih =>
    rw [Nat.testBit_and, Nat.testBit_succ, Nat.testBit_succ, ← Nat.testBit_and]
    rcases Nat.mod_two_eq_zero_or_one number with even | odd
    · have half : (number - 1) / 2 = number / 2 - 1 := by omega
      rw [half, ih (by omega)]
      refine and_congr_right fun _ => ?_
      constructor
      · rintro ⟨lower, below, held⟩
        exact ⟨lower + 1, Nat.succ_lt_succ below, Nat.testBit_succ .. ▸ held⟩
      · rintro ⟨lower, below, held⟩
        cases lower with
        | zero => simp [even] at held
        | succ lower => exact ⟨lower, Nat.lt_of_succ_lt_succ below, Nat.testBit_succ .. ▸ held⟩
    · have half : (number - 1) / 2 = number / 2 := by omega
      rw [half, Nat.and_self]
      have lowest : ∃ lower < place + 1, number.testBit lower = true :=
        ⟨0, Nat.succ_pos place, by simp [odd]⟩
      exact (and_iff_left lowest).symm

theorem setBits_member (word : Word) (place : Nat) :
    place ∈ setBits word ↔ word.getLsbD place = true := by
  rw [setBits, List.mem_filter, List.mem_range]
  exact ⟨And.right, fun held => ⟨BitVec.lt_of_getLsbD held, held⟩⟩

theorem setBits_ascending (word : Word) : (setBits word).Pairwise (· < ·) :=
  List.pairwise_lt_range.filter _

theorem setBits_cleared {word : Word} (split : setBits word = lowest :: higher) :
    setBits (word &&& (word - 1)) = higher := by
  have ascending := setBits_ascending word
  have members := setBits_member word
  rw [split] at ascending members
  obtain ⟨least, ascending⟩ := List.pairwise_cons.mp ascending
  have held : word.getLsbD lowest = true := (members lowest).mp List.mem_cons_self
  have positive : 0 < word.toNat := by
    apply Nat.pos_of_ne_zero
    intro zero
    rw [BitVec.getLsbD, zero, Nat.zero_testBit] at held
    cases held
  have before : (word - 1).toNat = word.toNat - 1 :=
    BitVec.toNat_sub_of_le (BitVec.le_def.mpr positive)
  apply (setBits_ascending _).eq_of_mem_iff ascending
  intro place
  rw [setBits_member, BitVec.getLsbD, BitVec.toNat_and, before, cleared_bit positive]
  simp only [BitVec.testBit_toNat, ← members]
  constructor
  · rintro ⟨member, lower, below, held⟩
    rcases List.mem_cons.mp member with rfl | member
    · rcases List.mem_cons.mp held with rfl | held
      · exact absurd below (Nat.lt_irrefl _)
      · exact absurd (least lower held) (Nat.not_lt.mpr (Nat.le_of_lt below))
    · exact member
  · intro member
    exact ⟨List.mem_cons_of_mem _ member, lowest, least place member, List.mem_cons_self⟩

theorem numbersFrom_member (base : Nat) (words : List Word) (number : Nat) :
    number ∈ numbersFrom base words ↔ 64 * base ≤ number ∧ bit words (number - 64 * base) = true := by
  induction words generalizing base with
  | nil => simp [numbersFrom, bit]
  | cons word rest ih =>
    rw [numbersFrom, List.mem_append, List.mem_map, ih]
    constructor
    · rintro (⟨place, member, rfl⟩ | ⟨behind, held⟩)
      · have held := (setBits_member word place).mp member
        have inside := BitVec.lt_of_getLsbD held
        refine ⟨Nat.le_add_right .., ?_⟩
        simpa [bit, Nat.div_eq_of_lt inside, Nat.mod_eq_of_lt inside] using held
      · refine ⟨by omega, ?_⟩
        have split : number - 64 * base = (number - 64 * (base + 1)) + 64 := by omega
        simpa [bit, split, Nat.add_div_right, Nat.add_mod_right] using held
    · rintro ⟨ahead, held⟩
      by_cases inside : number - 64 * base < 64
      · left
        simp only [bit, Nat.div_eq_of_lt inside, Nat.mod_eq_of_lt inside] at held
        exact ⟨number - 64 * base, (setBits_member word _).mpr (by simpa using held), by omega⟩
      · right
        have split : number - 64 * base = (number - 64 * (base + 1)) + 64 := by omega
        refine ⟨by omega, ?_⟩
        simpa [bit, split, Nat.add_div_right, Nat.add_mod_right] using held

theorem numbersFrom_ascending (base : Nat) (words : List Word) :
    (numbersFrom base words).Pairwise (· < ·) := by
  induction words generalizing base with
  | nil => exact .nil
  | cons word rest ih =>
    refine List.pairwise_append.mpr ⟨?_, ih (base + 1), ?_⟩
    · exact (setBits_ascending word).map _ fun _ _ below => Nat.add_lt_add_left below _
    · intro number member later behind
      obtain ⟨place, there, rfl⟩ := List.mem_map.mp member
      have inside := BitVec.lt_of_getLsbD ((setBits_member word place).mp there)
      have beyond := ((numbersFrom_member ..).mp behind).1
      omega

theorem numbersFrom_length (base : Nat) (words : List Word) :
    (numbersFrom base words).length = (words.map fun word => (setBits word).length).foldr (· + ·) 0 := by
  induction words generalizing base with
  | nil => rfl
  | cons word rest ih =>
    rw [numbersFrom, List.length_append, List.length_map, ih]
    rfl

theorem toList_member (set : AttributeSet) (number : Nat) :
    number ∈ set.toList ↔ set.contains number = true := by
  rw [toList, numbersFrom_member, contains_bit]
  simp

namespace Cursor

def rest (c : Cursor) : List Nat := numbersFrom c.base (c.pending :: c.later)

def answers : Nat → Cursor → List (Option Nat)
  | 0, _ => []
  | calls + 1, c => c.next.1 :: c.next.2.answers calls

theorem nextFrom_bit (base : Nat) {pending : Word} (later : List Word)
    (split : setBits pending = lowest :: higher) :
    (nextFrom base pending later).1 = some (64 * base + lowest) ∧
      (nextFrom base pending later).2.rest =
        higher.map (64 * base + ·) ++ numbersFrom (base + 1) later := by
  have step : nextFrom base pending later =
      (some (64 * base + lowest), ⟨base, pending &&& (pending - 1), later⟩) := by
    unfold nextFrom
    rw [split]
    rfl
  rw [step, rest, numbersFrom, setBits_cleared split]
  exact ⟨rfl, rfl⟩

theorem nextFrom_rest (base : Nat) (pending : Word) (later : List Word) :
    (nextFrom base pending later).1 = (numbersFrom base (pending :: later)).head? ∧
      (nextFrom base pending later).2.rest = (numbersFrom base (pending :: later)).tail := by
  induction later generalizing base pending with
  | nil =>
    cases split : setBits pending with
    | nil => simp [nextFrom, rest, numbersFrom, split]
    | cons lowest higher => simpa [numbersFrom, split] using nextFrom_bit base [] split
  | cons word more ih =>
    cases split : setBits pending with
    | nil => simpa [nextFrom, numbersFrom, split] using ih (base + 1) word
    | cons lowest higher => simpa [numbersFrom, split] using nextFrom_bit base (word :: more) split

-- The call after any number of others answers with the number of that place, and with none behind the
-- last, however often it is asked.
theorem answers_rest (calls : Nat) (c : Cursor) :
    c.answers calls = (List.range calls).map fun call => c.rest[call]? := by
  induction calls generalizing c with
  | zero => rfl
  | succ calls ih =>
    obtain ⟨first, others⟩ := nextFrom_rest c.base c.pending c.later
    rw [answers, ih, List.range_succ_eq_map, List.map_cons, List.map_map]
    have head : c.next.1 = c.rest[0]? := first.trans List.head?_eq_getElem?
    have tail : c.next.2.rest = c.rest.tail := others
    rw [head, tail]
    congr 1
    apply List.map_congr_left
    intro call _
    exact List.getElem?_tail

theorem cursor_rest (set : AttributeSet) : set.cursor.rest = set.toList := by
  unfold cursor rest toList
  cases set.words with
  | nil => simp [numbersFrom, setBits]
  | cons word later => rfl

end Cursor

-- Every set that can come about is read as its numbers in ascending order, and there are as many of
-- them as it counts. A call behind the last one finds nothing, and so does every call after that.
-- The numbers that are read make the same set again.
theorem reads_ascending (origin : Origin) :
    origin.set.toList.Pairwise (· < ·) ∧
    (∀ number ∈ origin.set.toList, number < 2 ^ 32) ∧
    (∀ id : UInt32, id.toNat ∈ origin.set.toList ↔ origin.set.contains id.toNat = true) ∧
    origin.set.toList.length = origin.set.size ∧
    (∀ calls, origin.set.cursor.answers calls =
      (List.range calls).map fun call => origin.set.toList[call]?) ∧
    (ofList origin.set.toList == origin.set) = true := by
  refine ⟨numbersFrom_ascending .., ?_, fun id => toList_member .., numbersFrom_length .., ?_, ?_⟩
  · intro number member
    obtain ⟨id, -, rfl⟩ := (origin.holds number).mp ((toList_member ..).mp member)
    exact id.toNat_lt
  · intro calls
    rw [Cursor.answers_rest, Cursor.cursor_rest]
  · rw [same_exact]
    intro number
    rw [ofList_contains, Bool.eq_iff_iff, decide_eq_true_iff, toList_member]

end InSitu.AttributeSet
