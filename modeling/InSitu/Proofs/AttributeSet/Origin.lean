import InSitu.Proofs.AttributeSet.Membership
import Mathlib.Data.Set.Insert
namespace InSitu.AttributeSet

def padded (set : AttributeSet) (zeros : Nat) : AttributeSet := ⟨set.words ++ List.replicate zeros 0⟩

theorem padded_contains (set : AttributeSet) (zeros number : Nat) :
    (set.padded zeros).contains number = set.contains number := by
  have words : (set.padded zeros).words[number / 64]?.getD 0 = set.words[number / 64]?.getD 0 := by
    by_cases inside : number / 64 < set.words.length
    · simp only [padded, List.getElem?_append_left inside]
    · rw [padded, List.getElem?_append_right (Nat.le_of_not_lt inside), List.getElem?_replicate,
        List.getElem?_eq_none (Nat.le_of_not_lt inside)]
      split <;> rfl
  rw [contains_bit, contains_bit, bit, bit, words]

-- How a set comes about. Numbers have 32 bits, and a range goes no further than they do. No operation
-- leaves zero words at the end, but nothing below depends on that.
inductive Origin where
  | empty
  | first (count : Nat) (fits : count ≤ 2 ^ 32)
  | listed (ids : List UInt32)
  | inserted (origin : Origin) (id : UInt32)
  | without (origin other : Origin)
  | padded (origin : Origin) (zeros : Nat)

namespace Origin

def set : Origin → AttributeSet
  | .empty => AttributeSet.empty
  | .first count _ => AttributeSet.first count
  | .listed ids => ofList (ids.map UInt32.toNat)
  | .inserted origin id => origin.set.insert id.toNat
  | .without origin other => origin.set.difference other.set
  | .padded origin zeros => origin.set.padded zeros

def numbers : Origin → Set UInt32
  | .empty => ∅
  | .first count _ => {id | id.toNat < count}
  | .listed ids => {id | id ∈ ids}
  | .inserted origin id => Insert.insert id origin.numbers
  | .without origin other => origin.numbers \ other.numbers
  | .padded origin _ => origin.numbers

theorem holds (origin : Origin) (number : Nat) :
    origin.set.contains number = true ↔ ∃ id ∈ origin.numbers, id.toNat = number := by
  induction origin generalizing number with
  | empty => simp [set, numbers, empty_contains]
  | first count fits =>
    rw [set, first_contains, decide_eq_true_iff]
    constructor
    · intro below
      have narrow : (UInt32.ofNat number).toNat = number :=
        UInt32.toNat_ofNat_of_lt (Nat.lt_of_lt_of_le below fits)
      refine ⟨UInt32.ofNat number, ?_, narrow⟩
      show (UInt32.ofNat number).toNat < count
      rwa [narrow]
    · rintro ⟨id, below, rfl⟩
      exact below
  | listed ids =>
    rw [set, ofList_contains, decide_eq_true_iff]
    exact List.mem_map
  | inserted origin id ih =>
    rw [set, insert_contains, Bool.or_eq_true, decide_eq_true_iff, ih]
    simp only [numbers, Set.mem_insert_iff, exists_eq_or_imp]
    exact or_congr_left eq_comm
  | without origin other ih ihOther =>
    rw [set, difference_contains, Bool.and_eq_true, Bool.not_eq_true', ← Bool.not_eq_true, ih, ihOther]
    constructor
    · rintro ⟨⟨id, held, rfl⟩, gone⟩
      exact ⟨id, ⟨held, fun there => gone ⟨id, there, rfl⟩⟩, rfl⟩
    · rintro ⟨id, ⟨held, gone⟩, rfl⟩
      refine ⟨⟨id, held, rfl⟩, ?_⟩
      rintro ⟨same, there, equal⟩
      exact gone (UInt32.toNat_inj.mp equal ▸ there)
  | padded origin zeros ih =>
    rw [set, padded_contains]
    exact ih number

theorem holds_id (origin : Origin) (id : UInt32) :
    origin.set.contains id.toNat = true ↔ id ∈ origin.numbers := by
  rw [origin.holds]
  constructor
  · rintro ⟨same, held, equal⟩
    exact UInt32.toNat_inj.mp equal ▸ held
  · intro held
    exact ⟨id, held, rfl⟩

theorem same_ids (origin other : Origin) :
    (∀ number, origin.set.contains number = other.set.contains number) ↔
      ∀ id : UInt32, origin.set.contains id.toNat = other.set.contains id.toNat := by
  constructor
  · intro same id
    exact same id.toNat
  · intro same number
    have equal : origin.numbers = other.numbers := by
      ext id
      rw [← origin.holds_id, ← other.holds_id, same id]
    rw [Bool.eq_iff_iff, origin.holds, other.holds, equal]

-- However a set has come about, each step does to it what it does to a plain set of numbers. It is
-- empty when it holds no number, and equal to any other that holds the same numbers, also where the
-- words of the two are not the same.
theorem sets_plain (origin other : Origin) :
    (∀ id : UInt32, origin.set.contains id.toNat = true ↔ id ∈ origin.numbers) ∧
    (origin.set.isEmpty = true ↔ ∀ id : UInt32, origin.set.contains id.toNat = false) ∧
    ((origin.set == other.set) = true ↔
      ∀ id : UInt32, origin.set.contains id.toNat = other.set.contains id.toNat) := by
  refine ⟨origin.holds_id, ?_, ?_⟩
  · have nothing := origin.same_ids .empty
    rw [isEmpty_exact]
    simpa only [set, empty_contains] using nothing
  · rw [same_exact, same_ids]

end Origin
end InSitu.AttributeSet
