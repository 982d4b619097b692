import InSitu.Proofs.Projection.Mirror
import Mathlib.Data.List.TakeWhile
namespace InSitu

-- What a view is asked for. The shape of a view is not read from a collection.
inductive Pass (α : Type) where
  | value (index : Nat)
  | tryValue (index : Nat)
  | get (index : Nat)
  | tuple (tuple : Nat)
  | tryTuple (tuple : Nat)
  | widened (tuple : Nat)
  | search (value : α) (start : Nat)
  | lookup (value : α)
  | gather (tuples : List Nat) (out : List α)
  | range (first last : Nat) (out : List α) (outComponents : Nat)
  | list
  | append (out : List Float)

namespace Session

-- The answer is dropped: later calls depend only on what a pass leaves behind.
def pass [Scalar α] (objects : List ο) : Pass α → Act (Session ο α) ProjectionError Unit
  | .value index => do let _ ← valueAt objects index
  | .tryValue index => do let _ ← tryValueAt objects index
  | .get index => do let _ ← get? objects index
  | .tuple tuple => do let _ ← tupleAt objects tuple
  | .tryTuple tuple => do let _ ← tryTupleAt objects tuple
  | .widened tuple => do let _ ← widenedTuple objects tuple
  | .search value start => do let _ ← linearSearch objects value start
  | .lookup value => do let _ ← lookupAll objects value
  | .gather tuples out => do let _ ← gatherTuples objects tuples out
  | .range first last out outComponents => do
    let _ ← copyTupleRange objects first last out outComponents
  | .list => do let _ ← toList objects
  | .append out => do let _ ← appendWidened objects out

inductive Passes (objects : List ο) : Session ο α → List Nat → Session ο α → Prop where
  | none : Passes objects s [] s
  | read (inside : slot < s.buffer.size)
      (onward : Passes objects (readSlot (ε := ProjectionError) objects slot s).2 slots last) :
      Passes objects s (slot :: slots) last

namespace Passes
variable {s between last : Session ο α}

theorem trans (before : Passes objects s slots between) (after : Passes objects between more last) :
    Passes objects s (slots ++ more) last := by
  induction before with
  | none => exact after
  | read inside onward ih => exact .read inside (ih after)

theorem alike (passes : Passes objects s slots last) : last.buffer.Alike s.buffer := by
  induction passes with
  | none => exact .refl
  | read inside onward ih =>
    exact ih.trans (reads_alike (readSlot_sound (ε := ProjectionError) ..))

end Passes

-- Run on a projection of this size, it does nothing but read slots of the range.
def Slotwise (size : Nat) (objects : List ο) (x : Act (Session ο α) ProjectionError β) : Prop :=
  ∀ s : Session ο α, s.buffer.size = size → ∃ slots, Passes objects s slots (x s).2

namespace Slotwise
variable {objects : List ο}

theorem pure (b : β) : Slotwise (α := α) size objects (pure b) := fun _ _ => ⟨[], .none⟩

theorem refuse (cause : ProjectionError) :
    Slotwise (α := α) (β := β) size objects (Act.refuse cause) := fun _ _ => ⟨[], .none⟩

theorem abort (note : Option String) :
    Slotwise (α := α) (β := β) size objects (Act.abort note) := fun _ _ => ⟨[], .none⟩

theorem readSlot (inside : slot < size) :
    Slotwise (α := α) size objects (Session.readSlot objects slot) :=
  fun _ sized => ⟨[slot], .read (sized ▸ inside) .none⟩

theorem bind {x : Act (Session ο α) ProjectionError β} {f : β → Act (Session ο α) ProjectionError δ}
    (first : Slotwise size objects x) (rest : ∀ b, Slotwise size objects (f b)) :
    Slotwise size objects (x >>= f) := by
  intro s sized
  obtain ⟨slots, passes⟩ := first s sized
  rw [Act.bind_exact]
  rcases ran : x s with ⟨failure | b, reached⟩ <;> rw [ran] at passes
  · exact ⟨slots, passes⟩
  · obtain ⟨more, onward⟩ := rest b reached (passes.alike.size.trans sized)
    exact ⟨slots ++ more, passes.trans onward⟩

theorem asked {f : Session ο α → Act (Session ο α) ProjectionError δ}
    (rest : ∀ s, s.buffer.size = size → Slotwise size objects (f s)) :
    Slotwise size objects (get >>= f) := by
  intro s sized
  rw [Act.bind_exact, Act.get_exact]
  exact rest s sized s sized

theorem ite {condition : Prop} [Decidable condition] {x y : Act (Session ο α) ProjectionError β}
    (yes : condition → Slotwise size objects x) (no : ¬ condition → Slotwise size objects y) :
    Slotwise size objects (if condition then x else y) := by
  split
  · exact yes ‹_›
  · exact no ‹_›

end Slotwise

variable {objects : List ο}

theorem readSlots_slotwise (inside : ∀ slot ∈ slots, slot < size) :
    Slotwise (α := α) size objects (readSlots objects slots) := by
  induction slots with
  | nil => exact .pure []
  | cons slot rest ih =>
    refine .bind (.readSlot (inside slot (by simp))) fun value => ?_
    exact .bind (ih fun other member => inside other (List.mem_cons_of_mem _ member)) fun _ => .pure _

theorem valueAt_inside {s : Session ο α} (inside : slot < s.buffer.size) :
    valueAt (ε := ε) objects slot s = readSlot objects slot s := by
  simp only [valueAt, Act.bind_exact, Act.get_exact, if_pos inside]

theorem valueAt_outside {s : Session ο α} (outside : ¬ slot < s.buffer.size) :
    (valueAt (ε := ε) objects slot s).2 = s := by
  simp only [valueAt, Act.bind_exact, Act.get_exact, if_neg outside]
  rfl

theorem tryValueAt_inside {s : Session ο α} (inside : slot < s.buffer.size) :
    tryValueAt objects slot s = readSlot objects slot s := by
  simp only [tryValueAt, Act.bind_exact, Act.get_exact, if_pos inside]

theorem get_inside {s : Session ο α} (inside : slot < s.buffer.size) :
    (get? (ε := ε) objects slot s).1 = (readSlot objects slot s).1.map some := by
  simp only [get?, Act.bind_exact, Act.get_exact, if_pos inside]
  rcases readSlot (ε := ε) objects slot s with ⟨failure | value, reached⟩ <;> rfl

theorem valueAt_slotwise (index : Nat) : Slotwise (α := α) size objects (valueAt objects index) :=
  .asked fun _ sized => .ite (fun inside => .readSlot (sized ▸ inside)) fun _ => .abort _

theorem valuesAt_slotwise (indices : List Nat) :
    Slotwise (α := α) size objects (valuesAt objects indices) := by
  induction indices with
  | nil => exact .pure []
  | cons index rest ih =>
    exact .bind (valueAt_slotwise index) fun _ => .bind ih fun _ => .pure _

theorem tupleAt_slotwise (tuple : Nat) : Slotwise (α := α) size objects (tupleAt objects tuple) :=
  .asked fun _ _ => valuesAt_slotwise _

theorem searchIn_slotwise [Scalar α] (value : α) (inside : ∀ slot ∈ slots, slot < size) :
    Slotwise size objects (searchIn objects value slots) := by
  induction slots with
  | nil => exact .pure none
  | cons slot rest ih =>
    refine .bind (.readSlot (inside slot (by simp))) fun found => .ite (fun _ => .pure _) fun _ => ?_
    exact ih fun other member => inside other (List.mem_cons_of_mem _ member)

section Rounds
variable [Scalar α] (read : Nat → Act σ ε α) (value : α)

def firstIn : List Nat → Act σ ε (Option Nat)
  | [] => pure none
  | slot :: rest => do
    let found ← read slot
    if found == value then return some slot else firstIn rest

def hitsFrom (size : Nat) : Nat → Nat → Act σ ε (List Nat)
  | 0, _ => pure []
  | rounds + 1, start => do
    match ← firstIn read value ((List.range size).drop start) with
    | none => return []
    | some hit =>
      let hits ← hitsFrom size rounds (hit + 1)
      return hit :: hits

def hitsIn : List Nat → Act σ ε (List Nat)
  | [] => pure []
  | slot :: rest => do
    let found ← read slot
    let hits ← hitsIn rest
    return if found == value then slot :: hits else hits

-- Up to the first hit the pass does what a search does, and behind it the rest of the pass is left.
theorem hitsIn_first (slots : List Nat) (s : σ) :
    match firstIn read value slots s with
    | (.ok none, reached) => hitsIn read value slots s = (.ok [], reached)
    | (.ok (some hit), reached) => ∃ front back, slots = front ++ hit :: back ∧
        hitsIn read value slots s = (do return hit :: (← hitsIn read value back) : Act _ _ _) reached
    | (.error failure, reached) => hitsIn read value slots s = (.error failure, reached) := by
  induction slots generalizing s with
  | nil => rfl
  | cons slot rest ih =>
    simp only [firstIn, hitsIn, Act.bind_exact]
    rcases read slot s with ⟨failure | found, reached⟩
    · rfl
    · by_cases hit : (found == value) = true
      · simp only [if_pos hit]
        exact ⟨[], rest, rfl, rfl⟩
      · simp only [if_neg hit]
        have later := ih reached
        rcases searched : firstIn read value rest reached with ⟨failure | none | next, last⟩ <;>
          rw [searched] at later
        · simp only [later]
        · simp only [later]
          rfl
        · obtain ⟨front, back, split, same⟩ := later
          refine ⟨slot :: front, back, by rw [split]; rfl, ?_⟩
          rw [same]
          simp only [Act.bind_exact]
          rcases hitsIn read value back last with ⟨failure | hits, ended⟩ <;> rfl

theorem range_ahead (size start : Nat) :
    (List.range size).drop start = List.range' start (size - start) := by
  rw [List.range_eq_range', List.drop_range', Nat.mul_one, Nat.zero_add]

theorem range_split {front back : List Nat} : (List.range size).drop start = front ++ hit :: back ↔
    start ≤ hit ∧ hit < size ∧ front = (List.range hit).drop start ∧
      back = (List.range size).drop (hit + 1) := by
  simp only [range_ahead, List.range'_eq_append_iff]
  constructor
  · rintro ⟨count, within, rfl, behind⟩
    obtain ⟨rfl, ahead, rfl⟩ := List.range'_eq_cons_iff.mp behind.symm
    refine ⟨Nat.le_add_right .., by omega, ?_, ?_⟩ <;> congr 1 <;> omega
  · rintro ⟨ahead, below, rfl, rfl⟩
    refine ⟨hit - start, by omega, rfl, (List.range'_eq_cons_iff.mpr ⟨by omega, by omega, ?_⟩).symm⟩
    congr 1
    omega

-- However many rounds are left over, a lookup comes to the pass over the slots that are ahead.
theorem hitsFrom_exact {rounds : Nat} (enough : size - start < rounds) :
    hitsFrom read value size rounds start = hitsIn read value ((List.range size).drop start) := by
  induction rounds generalizing start with
  | zero => cases enough
  | succ rounds ih =>
    funext s
    have onward := hitsIn_first read value ((List.range size).drop start) s
    simp only [hitsFrom, Act.bind_exact]
    rcases searched : firstIn read value ((List.range size).drop start) s with
      ⟨failure | none | hit, reached⟩ <;> rw [searched] at onward
    · exact onward.symm
    · exact onward.symm
    · obtain ⟨front, back, split, same⟩ := onward
      obtain ⟨ahead, below, -, rfl⟩ := range_split.mp split
      rw [same]
      simp only [Act.bind_exact]
      rw [ih (by omega)]

end Rounds

theorem searchIn_exact [Scalar α] (objects : List ο) (value : α) (slots : List Nat) :
    searchIn (ε := ε) objects value slots = firstIn (Session.readSlot objects) value slots := by
  induction slots with
  | nil => rfl
  | cons slot rest ih =>
    simp only [searchIn, firstIn, ih]

theorem hitsIn_slotwise [Scalar α] (value : α) (inside : ∀ slot ∈ slots, slot < size) :
    Slotwise size objects (hitsIn (Session.readSlot objects) value slots) := by
  induction slots with
  | nil => exact .pure []
  | cons slot rest ih =>
    refine .bind (.readSlot (inside slot (by simp))) fun found => ?_
    exact .bind (ih fun other member => inside other (List.mem_cons_of_mem _ member)) fun _ => .pure _

theorem lookupRounds_exact [Scalar α] (value : α) (rounds start : Nat) (s : Session ο α) :
    lookupRounds (ε := ProjectionError) objects value rounds start s =
      hitsFrom (Session.readSlot objects) value s.buffer.size rounds start s := by
  induction rounds generalizing start s with
  | zero => rfl
  | succ rounds ih =>
    have inside : ∀ slot ∈ (List.range s.buffer.size).drop start, slot < s.buffer.size :=
      fun slot member => List.mem_range.mp (List.mem_of_mem_drop member)
    have slotwise : Slotwise _ objects _ := searchIn_slotwise value inside
    obtain ⟨slots, passes⟩ := slotwise s rfl
    have asked : linearSearch (ε := ProjectionError) objects value start s =
        firstIn (Session.readSlot objects) value ((List.range s.buffer.size).drop start) s :=
      congrFun (searchIn_exact ..) s
    rw [searchIn_exact] at passes
    simp only [lookupRounds, hitsFrom, Act.bind_exact, asked]
    rcases searched : firstIn (Session.readSlot (ε := ProjectionError) objects) value
      ((List.range s.buffer.size).drop start) s with ⟨failure | none | hit, reached⟩
    · rfl
    · rfl
    · rw [searched] at passes
      have sized : reached.buffer.size = s.buffer.size := passes.alike.size
      simp only [Act.bind_exact]
      rw [ih, sized]

theorem lookupAll_exact [Scalar α] (value : α) (s : Session ο α) :
    lookupAll (ε := ProjectionError) objects value s =
      hitsIn (Session.readSlot objects) value (List.range s.buffer.size) s := by
  have asked : lookupAll (ε := ProjectionError) objects value s =
      lookupRounds objects value (s.buffer.size + 1) 0 s := rfl
  have enough : s.buffer.size - 0 < s.buffer.size + 1 := Nat.lt_succ_self _
  rw [asked, lookupRounds_exact, hitsFrom_exact _ value enough, List.drop_zero]

theorem slotsOf_inside {b : Buffer ο α} (within : tuple + count ≤ b.tupleCount) :
    ∀ slot ∈ slotsOf b tuple count, slot < b.size := by
  intro slot member
  obtain ⟨place, there, rfl⟩ := List.mem_map.mp member
  have enough := Nat.mul_le_mul_left b.components within
  have below := List.mem_range.mp there
  rw [Nat.mul_add, Nat.mul_comm _ tuple, Nat.mul_comm _ count] at enough
  show tuple * b.components + place < b.components * b.tupleCount
  omega

theorem slotsOf_alike {b other : Buffer ο α} (alike : b.Alike other) (tuple count : Nat) :
    slotsOf b tuple count = slotsOf other tuple count := by
  simp only [slotsOf, Buffer.components, Buffer.made_accessor alike.made]

theorem readSlots_append (front back : List Nat) (s : Session ο α) :
    readSlots (ε := ε) objects (front ++ back) s = (do
      let values ← readSlots objects front
      let more ← readSlots objects back
      return values ++ more : Act _ _ _) s := by
  induction front generalizing s with
  | nil =>
    simp only [List.nil_append, readSlots, Act.bind_exact, Act.pure_exact]
    rcases readSlots (ε := ε) objects back s with ⟨failure | values, reached⟩ <;> rfl
  | cons slot rest ih =>
    simp only [List.cons_append, readSlots, Act.bind_exact]
    rcases readSlot (ε := ε) objects slot s with ⟨failure | value, reached⟩
    · rfl
    · simp only [ih, Act.bind_exact]
      rcases readSlots (ε := ε) objects rest reached with ⟨failure | values, between⟩
      · rfl
      · simp only [Act.pure_exact]
        rcases readSlots (ε := ε) objects back between with ⟨failure | more, last⟩ <;> rfl

def frontSlots (b : Buffer ο α) (tuples : List Nat) : List Nat :=
  (tuples.takeWhile (· < b.tupleCount)).flatMap (slotsOf b · 1)

def rangeVerdict (count : Nat) (tuples : List Nat) : Except ProjectionError Unit :=
  match tuples.find? (count ≤ ·) with
  | none => .ok ()
  | some tuple => .error (.tupleOutOfRange tuple count)

section Front
variable {b : Buffer ο α} {tuples : List Nat}

theorem frontSlots_inside (b : Buffer ο α) (tuples : List Nat) :
    ∀ slot ∈ frontSlots b tuples, slot < b.size := by
  intro slot member
  obtain ⟨tuple, front, there⟩ := List.mem_flatMap.mp member
  have inside : tuple < b.tupleCount := by simpa using List.mem_takeWhile_imp front
  exact slotsOf_inside inside slot there

theorem frontSlots_cons (inside : tuple < b.tupleCount) (rest : List Nat) :
    frontSlots b (tuple :: rest) = slotsOf b tuple 1 ++ frontSlots b rest := by
  rw [frontSlots, List.takeWhile_cons_of_pos (by simpa using inside), List.flatMap_cons]
  rfl

theorem frontSlots_beyond (beyond : ¬ tuple < b.tupleCount) (rest : List Nat) :
    frontSlots b (tuple :: rest) = [] := by
  rw [frontSlots, List.takeWhile_cons_of_neg (by simpa using beyond), List.flatMap_nil]

theorem rangeVerdict_cons (inside : tuple < count) (rest : List Nat) :
    rangeVerdict count (tuple :: rest) = rangeVerdict count rest := by
  simp [rangeVerdict, inside]

theorem rangeVerdict_beyond (beyond : ¬ tuple < count) (rest : List Nat) :
    rangeVerdict count (tuple :: rest) = .error (.tupleOutOfRange tuple count) := by
  simp [rangeVerdict, Nat.not_lt.mp beyond]

theorem frontSlots_alike {other : Buffer ο α} (alike : b.Alike other) (tuples : List Nat) :
    frontSlots b tuples = frontSlots other tuples := by
  simp only [frontSlots, alike.tupleCount, slotsOf_alike alike]

end Front

theorem gatherIn_exact (tuples : List Nat) (s : Session ο α) :
    gatherIn (ε := ε) objects tuples s =
      ((readSlots objects (frontSlots s.buffer tuples) s).1.map fun values =>
          (rangeVerdict s.buffer.tupleCount tuples, values),
        (readSlots (ε := ε) objects (frontSlots s.buffer tuples) s).2) := by
  induction tuples generalizing s with
  | nil => rfl
  | cons tuple rest ih =>
    simp only [gatherIn, Act.bind_exact, Act.get_exact, Act.ite_exact]
    by_cases inside : tuple < s.buffer.tupleCount
    · obtain ⟨alike, -⟩ := readSlots_keeps (ε := ε) objects (slotsOf s.buffer tuple 1) s
      rw [if_pos inside, frontSlots_cons inside, rangeVerdict_cons inside, readSlots_append]
      simp only [Act.bind_exact]
      rcases read : readSlots (ε := ε) objects (slotsOf s.buffer tuple 1) s with
        ⟨failure | values, reached⟩ <;> rw [read] at alike
      · rfl
      · simp only [ih, alike.tupleCount, frontSlots_alike alike]
        rcases readSlots (ε := ε) objects (frontSlots s.buffer rest) reached with ⟨failure | more, last⟩ <;> rfl
    · rw [if_neg inside, frontSlots_beyond inside, rangeVerdict_beyond inside]
      rfl

theorem gatherIn_slotwise (tuples : List Nat) :
    Slotwise (α := α) size objects (gatherIn objects tuples) := by
  intro s sized
  rw [gatherIn_exact]
  exact readSlots_slotwise (sized ▸ frontSlots_inside s.buffer tuples) s sized

theorem toList_slotwise : Slotwise (α := α) size objects (toList objects) :=
  .asked fun _ sized => readSlots_slotwise fun _ member => sized ▸ List.mem_range.mp member

theorem pass_slotwise [Scalar α] (pass : Pass α) : Slotwise size objects (Session.pass objects pass) := by
  have drop : ∀ {β} {x : Act (Session ο α) ProjectionError β}, Slotwise size objects x →
      Slotwise size objects (do let _ ← x) := fun read => .bind read fun _ => .pure ()
  have listed : ∀ {s : Session ο α}, s.buffer.size = size →
      ∀ slot ∈ List.range s.buffer.size, slot < size :=
    fun sized slot member => sized ▸ List.mem_range.mp member
  cases pass with
  | value index => exact drop (valueAt_slotwise index)
  | tryValue index =>
    exact drop (.asked fun _ sized => .ite (fun inside => .readSlot (sized ▸ inside)) fun _ => .refuse _)
  | get index =>
    refine drop (.asked fun _ sized => .ite (fun inside => ?_) fun _ => .pure _)
    exact .bind (.readSlot (sized ▸ inside)) fun _ => .pure _
  | tuple tuple => exact drop (tupleAt_slotwise tuple)
  | tryTuple tuple =>
    exact drop (.asked fun _ _ => .ite (fun _ => tupleAt_slotwise tuple) fun _ => .refuse _)
  | widened tuple => exact drop (.bind (tupleAt_slotwise tuple) fun _ => .pure _)
  | search value start =>
    refine drop (.asked fun _ sized => searchIn_slotwise value fun slot member => ?_)
    exact listed sized slot (List.mem_of_mem_drop member)
  | lookup value =>
    refine drop fun s sized => ?_
    rw [lookupAll_exact]
    exact hitsIn_slotwise value (listed sized) s sized
  | gather tuples out =>
    refine drop (.asked fun _ _ => .ite (fun _ => .pure _) fun _ => ?_)
    exact .bind (gatherIn_slotwise tuples) fun _ => .pure _
  | range first last out outComponents =>
    refine drop (.asked fun s sized => .ite (fun _ => .pure _) fun _ => .ite (fun _ => .pure _)
      fun ordered => .ite (fun _ => .pure _) fun below => .ite (fun _ => .pure _) fun _ => ?_)
    have within : first + (last - first + 1) ≤ s.buffer.tupleCount := by omega
    exact .bind (readSlots_slotwise (sized ▸ slotsOf_inside within)) fun _ => .pure _
  | list => exact drop toList_slotwise
  | append out => exact drop (.bind toList_slotwise fun _ => .pure _)

end Session
end InSitu
