import InSitu.Proofs.Projection.Fresh
import Mathlib.Data.Finset.Card
namespace InSitu

-- The slots that a pass reads, in their order. `hit` is where a search ended, and nothing is read
-- behind it. What lies out of the range is not read.
def Pass.slots (b : Buffer ο α) (hit : Option Nat) : Pass α → List Nat
  | .value index | .tryValue index | .get index => if index < b.size then [index] else []
  | .tuple place | .tryTuple place | .widened place =>
    if place < b.tupleCount then Session.slotsOf b place 1 else []
  | .search _ start => (List.range (hit.elim b.size (· + 1))).drop start
  | .lookup _ | .list | .append _ => List.range b.size
  | .gather tuples out =>
    if out.length < tuples.length * b.components then []
    else (tuples.takeWhile (· < b.tupleCount)).flatMap (Session.slotsOf b · 1)
  | .range first last out outComponents =>
    if outComponents = b.components ∧ first ≤ last ∧ last < b.tupleCount ∧
        (last - first + 1) * b.components ≤ out.length then
      Session.slotsOf b first (last - first + 1)
    else []

structure Buffer.Ready (objects : List ο) (b : Buffer ο α) : Prop where
  sized : b.staging.Sized b.size
  full : b.mode = .copy → ∀ slot < b.size, ∃ value, b.staging.held? slot = some value
  live : ∀ slot < b.size, ∃ value, b.live? objects slot = some value

namespace Session

theorem reads_ready {s : Session ο α} (ready : s.buffer.Ready objects) (inside : slot < s.buffer.size)
    (read : ReadsSlot (ε := ε) objects slot s result) :
    (∃ value, result.1 = .ok value) ∧ result.2.buffer.Ready objects := by
  have alike := reads_alike read
  have sized := alike.size ▸ reads_sized read ready.sized
  have live : ∀ other < result.2.buffer.size, ∃ value,
      result.2.buffer.live? objects other = some value := by
    intro other below
    rw [alike.live]
    exact ready.live other (alike.size ▸ below)
  cases read with
  | held hits found => exact ⟨⟨_, rfl⟩, sized, ready.full, live⟩
  | fetched missing lazily seen =>
    refine ⟨⟨_, rfl⟩, sized, fun copy => ?_, live⟩
    exact absurd ((Buffer.made_mode alike.made).symm.trans copy) lazily
  | unseen missing unseen =>
    obtain ⟨value, there⟩ := ready.live slot inside
    exact absurd (there.symm.trans unseen) (by simp)
  | absent missing beyond =>
    rcases beyond with copy | beyond
    · obtain ⟨value, held⟩ := ready.full copy slot inside
      exact absurd (held.symm.trans missing) (by simp)
    · exact absurd (beyond _ ready.sized) (Nat.not_le.mpr inside)

theorem Passes.ready {s last : Session ο α} (passes : Passes objects s slots last)
    (ready : s.buffer.Ready objects) : last.buffer.Ready objects := by
  induction passes with
  | none => exact ready
  | read inside onward ih => exact ih (reads_ready ready inside (readSlot_sound ..)).2

def Reads (objects : List ο) (s : Session ο α) (slots : List Nat)
    (x : Act (Session ο α) ProjectionError β) (answer : β) : Prop :=
  (x s).1 = .ok answer ∧ Passes objects s slots (x s).2

namespace Reads
variable {s : Session ο α} {x : Act (Session ο α) ProjectionError β}

theorem pure (answer : β) : Reads objects s [] (pure answer) answer := ⟨rfl, .none⟩

theorem bind {f : β → Act (Session ο α) ProjectionError δ} (first : Reads objects s slots x answer)
    (rest : Reads objects (x s).2 more (f answer) last) :
    Reads objects s (slots ++ more) (x >>= f) last := by
  obtain ⟨answered, passes⟩ := first
  rcases ran : x s with ⟨outcome, reached⟩
  rw [ran] at answered passes rest
  cases answered
  obtain ⟨answered, onward⟩ := rest
  simp only [Reads, Act.bind_exact, ran]
  exact ⟨answered, passes.trans onward⟩

theorem finish {f : β → Act (Session ο α) ProjectionError δ} (first : Reads objects s slots x answer)
    (rest : f answer = Pure.pure last) : Reads objects s slots (x >>= f) last := by
  have nothing : Reads objects (x s).2 [] (f answer) last := rest ▸ Reads.pure last
  have ended := first.bind nothing
  rwa [List.append_nil] at ended

theorem ready (reads : Reads objects s slots x answer) (ready : s.buffer.Ready objects) :
    (x s).2.buffer.Ready objects ∧ (x s).2.buffer.Alike s.buffer :=
  ⟨reads.2.ready ready, reads.2.alike⟩

end Reads

section Passes
variable {objects : List ο} {s : Session ο α}

theorem readSlot_reads (ready : s.buffer.Ready objects) (inside : slot < s.buffer.size) :
    ∃ value, Reads objects s [slot] (readSlot objects slot) value := by
  obtain ⟨⟨value, answered⟩, -⟩ := reads_ready (ε := ProjectionError) ready inside (readSlot_sound ..)
  exact ⟨value, answered, .read inside .none⟩

theorem readSlots_reads (ready : s.buffer.Ready objects) (inside : ∀ slot ∈ slots, slot < s.buffer.size) :
    ∃ values, Reads objects s slots (readSlots objects slots) values := by
  induction slots generalizing s with
  | nil => exact ⟨[], .pure []⟩
  | cons slot rest ih =>
    obtain ⟨value, first⟩ := readSlot_reads ready (inside slot (by simp))
    obtain ⟨kept, alike⟩ := first.ready ready
    obtain ⟨values, later⟩ := ih kept fun other member =>
      alike.size ▸ inside other (List.mem_cons_of_mem _ member)
    exact ⟨value :: values, first.bind (later.finish rfl)⟩

theorem valuesAt_reads (ready : s.buffer.Ready objects) (inside : ∀ slot ∈ slots, slot < s.buffer.size) :
    ∃ values, Reads objects s slots (valuesAt objects slots) values := by
  induction slots generalizing s with
  | nil => exact ⟨[], .pure []⟩
  | cons slot rest ih =>
    have here := inside slot (by simp)
    obtain ⟨value, read⟩ := readSlot_reads ready here
    have first : Reads objects s [slot] (valueAt objects slot) value := by
      rw [Reads, valueAt_inside here]
      exact read
    obtain ⟨kept, alike⟩ := first.ready ready
    obtain ⟨values, later⟩ := ih kept fun other member =>
      alike.size ▸ inside other (List.mem_cons_of_mem _ member)
    exact ⟨value :: values, first.bind (later.finish rfl)⟩

theorem valuesAt_outside (outside : ∀ slot ∈ slots, ¬ slot < s.buffer.size) :
    (valuesAt (ε := ε) objects slots s).2 = s := by
  cases slots with
  | nil => rfl
  | cons slot rest =>
    have beyond := outside slot (by simp)
    simp only [valuesAt, valueAt, Act.bind_exact, Act.get_exact, if_neg beyond]
    rfl

theorem slotsOf_outside {b : Buffer ο α} (outside : ¬ tuple < b.tupleCount) :
    ∀ slot ∈ slotsOf b tuple 1, ¬ slot < b.size := by
  intro slot member
  obtain ⟨place, -, rfl⟩ := List.mem_map.mp member
  have enough := Nat.mul_le_mul_left b.components (Nat.not_lt.mp outside)
  rw [Nat.mul_comm _ tuple] at enough
  exact Nat.not_lt.mpr (Nat.le_trans enough (Nat.le_add_right _ _))

theorem searchIn_reads [Scalar α] (value : α) (ready : s.buffer.Ready objects)
    (inside : ∀ slot ∈ slots, slot < s.buffer.size) :
    Reads objects s slots (searchIn objects value slots) none ∨
      ∃ front found back, slots = front ++ found :: back ∧
        Reads objects s (front ++ [found]) (searchIn objects value slots) (some found) := by
  induction slots generalizing s with
  | nil => exact .inl (.pure none)
  | cons slot rest ih =>
    obtain ⟨shown, first⟩ := readSlot_reads ready (inside slot (by simp))
    obtain ⟨kept, alike⟩ := first.ready ready
    by_cases hit : (shown == value) = true
    · refine .inr ⟨[], slot, rest, rfl, ?_⟩
      exact first.finish (if_pos hit)
    · have onward : ∀ {more answer}, Reads objects (readSlot (ε := ProjectionError) objects slot s).2 more
          (searchIn objects value rest) answer →
          Reads objects s (slot :: more) (searchIn objects value (slot :: rest)) answer := by
        intro more answer later
        refine first.bind ?_
        rwa [if_neg hit]
      rcases ih kept fun other member => alike.size ▸ inside other (List.mem_cons_of_mem _ member) with
        missed | ⟨front, found, back, rfl, later⟩
      · exact .inl (onward missed)
      · exact .inr ⟨slot :: front, found, back, rfl, onward later⟩

theorem hitsIn_reads [Scalar α] (value : α) (ready : s.buffer.Ready objects)
    (inside : ∀ slot ∈ slots, slot < s.buffer.size) :
    ∃ hits, Reads objects s slots (hitsIn (readSlot objects) value slots) hits := by
  induction slots generalizing s with
  | nil => exact ⟨[], .pure []⟩
  | cons slot rest ih =>
    obtain ⟨shown, first⟩ := readSlot_reads ready (inside slot (by simp))
    obtain ⟨kept, alike⟩ := first.ready ready
    obtain ⟨hits, later⟩ := ih kept fun other member =>
      alike.size ▸ inside other (List.mem_cons_of_mem _ member)
    exact ⟨_, first.bind (later.finish rfl)⟩

theorem gatherIn_reads (tuples : List Nat) (ready : s.buffer.Ready objects) :
    ∃ written, Reads objects s (frontSlots s.buffer tuples) (gatherIn objects tuples) written := by
  obtain ⟨values, answered, passes⟩ := readSlots_reads ready (frontSlots_inside s.buffer tuples)
  refine ⟨(rangeVerdict s.buffer.tupleCount tuples, values), ?_⟩
  rw [Reads, gatherIn_exact]
  exact ⟨congrArg (Except.map _) answered, passes⟩

def found? [Scalar α] (objects : List ο) (s : Session ο α) : Pass α → Option Nat
  | .search value start =>
    match (linearSearch (ε := ProjectionError) objects value start s).1 with
    | .ok hit => hit
    | .error _ => none
  | _ => none

theorem range_upto {front back : List Nat} (split : (List.range size).drop start = front ++ found :: back) :
    front ++ [found] = (List.range (found + 1)).drop start := by
  obtain ⟨ahead, -, rfl, -⟩ := range_split.mp split
  rw [List.range_succ, List.drop_append_of_le_length (by rwa [List.length_range])]

theorem search_passes [Scalar α] (value : α) (start : Nat) (ready : s.buffer.Ready objects) :
    Passes objects s ((Pass.search value start).slots s.buffer (found? objects s (.search value start)))
      (linearSearch (ε := ProjectionError) objects value start s).2 := by
  have asked : linearSearch (ε := ProjectionError) objects value start s =
      searchIn objects value ((List.range s.buffer.size).drop start) s := by
    simp only [linearSearch, Act.bind_exact, Act.get_exact]
  have inside : ∀ slot ∈ (List.range s.buffer.size).drop start, slot < s.buffer.size :=
    fun slot member => List.mem_range.mp (List.mem_of_mem_drop member)
  simp only [found?, asked, Pass.slots]
  rcases searchIn_reads value ready inside with ⟨answered, passes⟩ | ⟨front, found, back, split, answered, passes⟩
  · rw [answered]
    exact passes
  · rw [answered]
    rw [range_upto split] at passes
    exact passes

theorem return_reached (x : Act (Session ο α) ProjectionError β) (f : β → δ) :
    ((do return f (← x) : Act (Session ο α) ProjectionError δ) s).2 = (x s).2 := by
  simp only [Act.bind_exact]
  rcases x s with ⟨failure | answer, reached⟩ <;> rfl

theorem valueAt_passes (index : Nat) :
    Passes objects s (if index < s.buffer.size then [index] else [])
      (valueAt (ε := ProjectionError) objects index s).2 := by
  split
  · rename_i inside
    rw [valueAt_inside inside]
    exact .read inside .none
  · rename_i outside
    rw [valueAt_outside outside]
    exact .none

theorem tupleAt_passes (ready : s.buffer.Ready objects) (tuple : Nat) :
    Passes objects s (if tuple < s.buffer.tupleCount then slotsOf s.buffer tuple 1 else [])
      (tupleAt (ε := ProjectionError) objects tuple s).2 := by
  have asked : tupleAt (ε := ProjectionError) objects tuple s =
      valuesAt objects (slotsOf s.buffer tuple 1) s := by
    simp only [tupleAt, Act.bind_exact, Act.get_exact]
  rw [asked]
  split
  · rename_i inside
    have within : ∀ slot ∈ slotsOf s.buffer tuple 1, slot < s.buffer.size := slotsOf_inside inside
    obtain ⟨values, -, passes⟩ := valuesAt_reads ready within
    exact passes
  · rename_i outside
    rw [valuesAt_outside (slotsOf_outside outside)]
    exact .none

theorem gatherTuples_passes (ready : s.buffer.Ready objects) (tuples : List Nat) (out : List α) :
    Passes objects s ((Pass.gather tuples out).slots s.buffer none)
      (gatherTuples (ε := ProjectionError) objects tuples out s).2 := by
  rw [Pass.slots]
  by_cases small : out.length < tuples.length * s.buffer.components
  · simp only [gatherTuples, Act.bind_exact, Act.get_exact, if_pos small]
    exact .none
  · obtain ⟨written, -, passes⟩ := gatherIn_reads tuples ready
    have asked : gatherTuples (ε := ProjectionError) objects tuples out s = (do
        let written ← gatherIn objects tuples
        return (written.1, overwrite written.2 out)) s := by
      simp only [gatherTuples, Act.bind_exact, Act.get_exact, if_neg small]
    rwa [if_neg small, asked, return_reached]

theorem copyTupleRange_passes (ready : s.buffer.Ready objects) (first last : Nat) (out : List α)
    (outComponents : Nat) :
    Passes objects s ((Pass.range first last out outComponents).slots s.buffer none)
      (copyTupleRange (ε := ProjectionError) objects first last out outComponents s).2 := by
  rw [Pass.slots]
  by_cases checked : outComponents = s.buffer.components ∧ first ≤ last ∧ last < s.buffer.tupleCount ∧
      (last - first + 1) * s.buffer.components ≤ out.length
  · obtain ⟨same, ordered, below, enough⟩ := checked
    have within : first + (last - first + 1) ≤ s.buffer.tupleCount := by omega
    obtain ⟨values, -, passes⟩ := readSlots_reads ready (slotsOf_inside within)
    have asked : copyTupleRange (ε := ProjectionError) objects first last out outComponents s = (do
        let values ← readSlots objects (slotsOf s.buffer first (last - first + 1))
        return (Except.ok (last - first + 1), overwrite values out)) s := by
      simp only [copyTupleRange, Act.bind_exact, Act.get_exact, same, ne_eq, not_true_eq_false,
        if_neg (Nat.not_lt.mpr ordered), if_neg (Nat.not_le.mpr below),
        if_neg (Nat.not_lt.mpr enough), if_false]
    rwa [if_pos ⟨same, ordered, below, enough⟩, asked, return_reached]
  · rw [if_neg checked]
    simp only [copyTupleRange, Act.bind_exact, Act.get_exact]
    split
    · exact .none
    split
    · exact .none
    split
    · exact .none
    split
    · exact .none
    · exact absurd (by omega) checked

theorem pass_passes [Scalar α] (pass : Pass α) (ready : s.buffer.Ready objects) :
    Passes objects s (pass.slots s.buffer (found? objects s pass)) (Session.pass objects pass s).2 := by
  have listed : ∀ slot ∈ List.range s.buffer.size, slot < s.buffer.size :=
    fun slot member => List.mem_range.mp member
  cases pass with
  | value index =>
    rw [Session.pass, return_reached]
    exact valueAt_passes index
  | tryValue index =>
    rw [Session.pass, return_reached]
    simp only [tryValueAt, Act.bind_exact, Act.get_exact, Act.ite_exact, Pass.slots]
    split
    · rename_i inside
      exact .read inside .none
    · exact .none
  | get index =>
    rw [Session.pass, return_reached]
    by_cases inside : index < s.buffer.size
    · have asked : get? (ε := ProjectionError) objects index s =
          (do return some (← readSlot objects index)) s := by
        simp only [get?, Act.bind_exact, Act.get_exact, if_pos inside]
      rw [Pass.slots, if_pos inside, asked, return_reached]
      exact .read inside .none
    · simp only [get?, Act.bind_exact, Act.get_exact, if_neg inside, Pass.slots]
      exact .none
  | tuple tuple =>
    rw [Session.pass, return_reached]
    exact tupleAt_passes ready tuple
  | tryTuple tuple =>
    rw [Session.pass, return_reached]
    simp only [tryTupleAt, Act.bind_exact, Act.get_exact, Act.ite_exact, Pass.slots]
    have read := tupleAt_passes ready tuple
    split <;> rename_i inside
    · rwa [if_pos inside] at read
    · exact .none
  | widened tuple =>
    rw [Session.pass, return_reached, widenedTuple, return_reached]
    exact tupleAt_passes ready tuple
  | search value start =>
    rw [Session.pass, return_reached]
    exact search_passes value start ready
  | lookup value =>
    rw [Session.pass, return_reached, lookupAll_exact]
    obtain ⟨hits, -, passes⟩ := hitsIn_reads value ready listed
    exact passes
  | gather tuples out =>
    rw [Session.pass, return_reached]
    exact gatherTuples_passes ready tuples out
  | range first last out outComponents =>
    rw [Session.pass, return_reached]
    exact copyTupleRange_passes ready first last out outComponents
  | list =>
    rw [Session.pass, return_reached, toList_exact]
    obtain ⟨values, -, passes⟩ := readSlots_reads ready listed
    exact passes
  | append out =>
    rw [Session.pass, return_reached, appendWidened, return_reached, toList_exact]
    obtain ⟨values, -, passes⟩ := readSlots_reads ready listed
    exact passes

end Passes
end Session

-- A copy answers for nothing. What is held in a cache is a hit, and all else is read through the
-- accessor.
def Stats.charged (stats : Stats) (mode : Mode) (held : Bool) : Stats :=
  if mode = .copy then stats
  else if held then {stats with cacheHits := stats.cacheHits + 1}
  else {stats with accessorReads := stats.accessorReads + 1}

theorem Staging.direct_unheld {staging : Staging α} (direct : staging.mode = .zeroCopy) (slot : Nat) :
    staging.held? slot = none := by
  cases staging with
  | direct => rfl
  | copied values => cases direct
  | cached slots current => cases direct

namespace Session

theorem readSlot_charged {s : Session ο α} (ready : s.buffer.Ready objects)
    (inside : slot < s.buffer.size) :
    (readSlot (ε := ε) objects slot s).2.buffer.stats =
      s.buffer.stats.charged s.buffer.mode (s.buffer.staging.held? slot).isSome ∧
    (readSlot (ε := ε) objects slot s).2.lookups + s.buffer.stats.accessorReads =
      s.lookups + (readSlot (ε := ε) objects slot s).2.buffer.stats.accessorReads := by
  obtain ⟨value, seen⟩ := ready.live slot inside
  cases staging : s.buffer.staging with
  | direct =>
    have mode : s.buffer.mode = .zeroCopy := by simp [Buffer.mode, staging, Staging.mode]
    simp [readSlot, staging, live, seen, reading, Buffer.counting, Stats.charged, mode, Staging.held?]
    omega
  | copied values =>
    have mode : s.buffer.mode = .copy := by simp [Buffer.mode, staging, Staging.mode]
    simp only [readSlot, staging]
    cases values[slot]? <;> simp [Stats.charged, mode]
  | cached slots current =>
    have mode : s.buffer.mode = .cache := by simp [Buffer.mode, staging, Staging.mode]
    have sized : slots.length = s.buffer.size := by
      have := ready.sized
      rwa [staging] at this
    have there := List.getElem?_eq_getElem (sized ▸ inside)
    by_cases valid : slots[slot].stamp = current
    · simp [readSlot, staging, there, valid, Buffer.counting, Stats.charged, mode, Staging.held?]
    · simp [readSlot, staging, there, valid, live, seen, reading, staged, Buffer.counting,
        Stats.charged, mode, Staging.held?]
      omega

theorem readSlot_cached {s : Session ο α} (ready : s.buffer.Ready objects)
    (cache : s.buffer.mode = .cache) (inside : slot < s.buffer.size) (other : Nat) :
    ((readSlot (ε := ε) objects slot s).2.buffer.staging.held? other).isSome ↔
      other = slot ∨ (s.buffer.staging.held? other).isSome := by
  obtain ⟨⟨value, answered⟩, -⟩ := reads_ready (ε := ε) ready inside (readSlot_sound ..)
  have sound := readSlot_sound (ε := ε) objects slot s
  generalize readSlot (ε := ε) objects slot s = result at sound answered
  cases sound with
  | held hits found =>
    show (s.buffer.staging.held? other).isSome ↔ _
    by_cases same : other = slot
    · subst same
      simp [found]
    · simp [same]
  | fetched missing lazily seen =>
    rename_i fetched
    show ((s.buffer.staging.filled slot fetched).held? other).isSome ↔ _
    rw [Staging.filled_held cache ready.sized inside]
    by_cases same : other = slot <;> simp [same]
  | unseen missing unseen => cases answered
  | absent missing beyond => cases answered

theorem refresh_counted [Scalar α] {s : Session ο α}
    (shown : ∀ object ∈ objects, s.buffer.accessor.Shows object)
    (ordered : start ≤ stop) (within : stop ≤ objects.length) :
    ∃ read, read = (if s.buffer.mode = .copy then stop - start else 0) ∧
      (refresh objects start stop s).2.buffer.stats = ⟨s.buffer.stats.refreshes + 1,
        s.buffer.stats.accessorReads + read, s.buffer.stats.cacheHits⟩ ∧
      (refresh objects start stop s).2.lookups = s.lookups + read := by
  have sound := refresh_sound objects start stop s
  have mode : s.buffer.mode = s.buffer.staging.mode := rfl
  generalize refresh objects start stop s = result at sound ⊢
  cases sound with
  | refused outside => omega
  | bound ordered within staging =>
    exact ⟨0, by simp [mode, staging, Staging.mode], rfl, rfl⟩
  | copied ordered within staging copy =>
    refine ⟨stop - start, by simp [mode, staging, Staging.mode], rfl, ?_⟩
    have part : ∀ object ∈ (objects.drop start).take (stop - start), s.buffer.accessor.Shows object :=
      fun object member => shown object (List.mem_of_mem_drop (List.mem_of_mem_take member))
    have looked := congrArg Accessor.Copied.lookups copy
    rw [Accessor.copyAll_complete _ part, List.length_take, List.length_drop,
      Nat.min_eq_left (Nat.sub_le_sub_right within _)] at looked
    exact congrArg (s.lookups + ·) looked.symm
  | interrupted ordered within staging copy =>
    have part : ∀ object ∈ (objects.drop start).take (stop - start), s.buffer.accessor.Shows object :=
      fun object member => shown object (List.mem_of_mem_drop (List.mem_of_mem_take member))
    rw [Accessor.copyAll_complete _ part] at copy
    cases copy
  | renewed ordered within staging =>
    exact ⟨0, by simp [mode, staging, Staging.mode], rfl, rfl⟩

end Session

def Access.objects : Access ο α → List ο
  | .refresh objects _ _ => objects
  | .read objects _ => objects

-- What a run comes to, apart from any counter: the refreshes that were accepted, the tuples that
-- they covered, the slots that were read, and those of them that were read since the last refresh,
-- in their order. `opened` is the accessor reads that had been counted by the end of that refresh.
structure Account where
  refreshes : Nat
  tuples : Nat
  reads : Nat
  opened : Nat
  cycle : List Nat

namespace Account

def initial : Account := ⟨0, 0, 0, 0, []⟩

def entered (account : Account) (slots : List Nat) : Account :=
  {account with reads := account.reads + slots.length, cycle := account.cycle ++ slots}

def after [Scalar α] (account : Account) (s : Session ο α) : Access ο α → Account
  | .refresh objects start stop =>
    if start ≤ stop ∧ stop ≤ objects.length then
      { refreshes := account.refreshes + 1
        tuples := account.tuples + (stop - start)
        reads := account.reads
        opened := (Session.refresh objects start stop s).2.buffer.stats.accessorReads
        cycle := [] }
    else account
  | .read objects pass =>
    if s.buffer.stop ≤ objects.length then
      account.entered (pass.slots s.buffer (Session.found? objects s pass))
    else account

def ofRun [Scalar α] (account : Account) (s : Session ο α) : List (Access ο α) → Account
  | [] => account
  | use :: rest => (account.after s use).ofRun (Session.access use s).2 rest

end Account

-- What the counters of a projection have to show for an account, by its mode.
structure Balances (mode : Mode) (account : Account) (s : Session ο α) : Prop where
  lookups : s.buffer.stats.accessorReads = s.lookups
  refreshes : s.buffer.stats.refreshes = account.refreshes
  direct : mode = .zeroCopy →
    s.buffer.stats.accessorReads = account.reads ∧ s.buffer.stats.cacheHits = 0
  copied : mode = .copy →
    s.buffer.stats.accessorReads = account.tuples ∧ s.buffer.stats.cacheHits = 0
  cached : mode = .cache →
    s.buffer.stats.accessorReads + s.buffer.stats.cacheHits = account.reads ∧
    s.buffer.stats.accessorReads = account.opened + account.cycle.toFinset.card

-- A cache holds the slots that were read in this cycle, and no others.
structure Kept (mode : Mode) (a : Accessor ο α) (account : Account) (s : Session ο α) : Prop
    extends Balances mode account s where
  accessor_eq : s.buffer.accessor = a
  mode_eq : s.buffer.mode = mode
  sized : s.buffer.staging.Sized s.buffer.size
  dated : s.buffer.staging.Dated
  full : mode = .copy → ∀ slot < s.buffer.size, ∃ value, s.buffer.staging.held? slot = some value
  held : mode = .cache → ∀ slot < s.buffer.size,
    (s.buffer.staging.held? slot).isSome ↔ slot ∈ account.cycle

namespace Kept
variable {mode : Mode} {a : Accessor ο α} {account : Account}

theorem initial (positive : 0 < a.components) :
    Kept mode a Account.initial ⟨Buffer.initial name mode a positive, 0⟩ := by
  have empty : (Buffer.initial name mode a positive).size = 0 := Nat.mul_zero _
  refine ⟨⟨rfl, rfl, fun _ => ⟨rfl, rfl⟩, fun _ => ⟨rfl, rfl⟩, fun _ => ⟨rfl, rfl⟩⟩, rfl,
    Staging.initial_mode mode, ?_, Staging.initial_dated mode, ?_, ?_⟩
  · cases mode <;> simp [Buffer.initial, Staging.initial, Staging.Sized, Buffer.size, Buffer.tupleCount]
  · intro _ slot inside
    rw [empty] at inside
    cases inside
  · intro _ slot inside
    rw [empty] at inside
    cases inside

theorem ready {s : Session ο α} (kept : Kept mode a account s) (covered : s.buffer.stop ≤ objects.length)
    (enough : ∀ object ∈ objects, a.Shows object) : s.buffer.Ready objects := by
  refine ⟨kept.sized, fun copy => kept.full (kept.mode_eq.symm.trans copy), ?_⟩
  intro slot inside
  refine Buffer.live_shown covered inside fun object member => ?_
  rw [kept.accessor_eq]
  exact enough object (List.mem_of_mem_drop (List.mem_of_mem_take member))

theorem preserves_slot {s : Session ο α} (kept : Kept mode a account s)
    (ready : s.buffer.Ready objects) (inside : slot < s.buffer.size) :
    Kept mode a (account.entered [slot])
      (Session.readSlot (ε := ProjectionError) objects slot s).2 := by
  have sound := Session.readSlot_sound (ε := ProjectionError) objects slot s
  have alike := Session.reads_alike sound
  have sized := alike.size ▸ Session.reads_sized sound kept.sized
  have dated := Session.reads_dated sound kept.dated
  have later := (Session.reads_ready ready inside sound).2
  have cached := fun cache => Session.readSlot_cached (ε := ProjectionError) ready cache inside
  obtain ⟨charged, looked⟩ := Session.readSlot_charged (ε := ProjectionError) ready inside
  generalize Session.readSlot (ε := ProjectionError) objects slot s = result at *
  have sameMode : result.2.buffer.mode = mode := (Buffer.made_mode alike.made).trans kept.mode_eq
  rw [kept.mode_eq] at charged
  refine ⟨⟨?_, ?_, ?_, ?_, ?_⟩, (Buffer.made_accessor alike.made).trans kept.accessor_eq, sameMode, sized,
    dated, fun copy => later.full (sameMode.trans copy), ?_⟩
  · have before := kept.lookups
    omega
  · rw [charged, Stats.charged]
    split
    · exact kept.refreshes
    · split <;> exact kept.refreshes
  · rintro rfl
    have missing := Staging.direct_unheld kept.mode_eq slot
    obtain ⟨reads, hits⟩ := kept.direct rfl
    simp [charged, Stats.charged, missing, reads, hits, Account.entered]
  · rintro rfl
    simpa [charged, Stats.charged, Account.entered] using kept.copied rfl
  · rintro rfl
    obtain ⟨reads, distinct⟩ := kept.cached rfl
    have known := kept.held rfl slot inside
    have cycle : (account.cycle ++ [slot]).toFinset = insert slot account.cycle.toFinset := by
      ext other
      simp
    simp only [charged, Stats.charged, reduceCtorEq, if_false, Account.entered, cycle,
      List.length_singleton]
    by_cases hit : (s.buffer.staging.held? slot).isSome
    · rw [if_pos hit, Finset.insert_eq_of_mem (List.mem_toFinset.mpr (known.mp hit))]
      exact ⟨by simp only; omega, distinct⟩
    · have new : slot ∉ account.cycle.toFinset := fun member => hit (known.mpr (List.mem_toFinset.mp member))
      rw [if_neg hit, Finset.card_insert_of_notMem new]
      constructor <;> simp only <;> omega
  · rintro rfl other below
    rw [cached kept.mode_eq, kept.held rfl other (alike.size ▸ below)]
    simp [Account.entered, or_comm]

theorem preserves_passes {s last : Session ο α} (kept : Kept mode a account s)
    (ready : s.buffer.Ready objects) (passes : Session.Passes objects s slots last) :
    Kept mode a (account.entered slots) last := by
  induction passes generalizing account with
  | none => simpa [Account.entered] using kept
  | read inside onward ih =>
    have next := (Session.reads_ready (ε := ProjectionError) ready inside (Session.readSlot_sound ..)).2
    have later := ih (kept.preserves_slot ready inside) next
    simpa [Account.entered, Nat.add_right_comm _ 1, Nat.add_assoc] using later

theorem preserves_refresh [Scalar α] {s : Session ο α} (kept : Kept mode a account s)
    (enough : ∀ object ∈ objects, a.Shows object) (start stop : Nat) :
    Kept mode a (account.after s (.refresh objects start stop))
      (Session.refresh objects start stop s).2 := by
  by_cases accepted : start ≤ stop ∧ stop ≤ objects.length
  · have shown : ∀ object ∈ objects, s.buffer.accessor.Shows object :=
      fun object member => kept.accessor_eq ▸ enough object member
    have refreshed := Session.refresh_answered kept.dated
      (Session.refresh_complete shown accepted.1 accepted.2)
    obtain ⟨read, cost, stats, lookups⟩ := Session.refresh_counted shown accepted.1 accepted.2
    simp only [Account.after, if_pos accepted]
    generalize Session.refresh objects start stop s = result at refreshed stats lookups ⊢
    have accessor : result.2.buffer.accessor = a :=
      (Buffer.made_accessor refreshed.made).trans kept.accessor_eq
    have sameMode : result.2.buffer.mode = mode := (Buffer.made_mode refreshed.made).trans kept.mode_eq
    rw [kept.mode_eq] at cost
    refine ⟨⟨?_, ?_, ?_, ?_, ?_⟩, accessor, sameMode, refreshed.sized, refreshed.dated, ?_, ?_⟩
    · rw [stats, lookups, ← kept.lookups]
    · rw [stats, ← kept.refreshes]
    · rintro rfl
      rw [stats, cost]
      exact kept.direct rfl
    · rintro rfl
      obtain ⟨reads, hits⟩ := kept.copied rfl
      rw [stats, cost, ← reads]
      exact ⟨rfl, hits⟩
    · rintro rfl
      rw [stats, cost]
      exact ⟨(kept.cached rfl).1, rfl⟩
    · rintro copy slot inside
      have part := refreshed.copied (sameMode.trans copy)
      rw [refreshed.held slot inside, if_pos (sameMode.trans copy)]
      refine Accessor.component_shown _ result.2.buffer.components_pos part ?_ refreshed.within
      rw [← refreshed.start_eq, ← refreshed.stop_eq]
      exact inside
    · rintro cache slot inside
      rw [refreshed.held slot inside, sameMode, cache]
      simp
  · have outside : stop < start ∨ objects.length < stop := by omega
    simpa [Session.refresh, outside, Account.after, accepted] using kept

theorem preserves_access [Scalar α] {s : Session ο α} (kept : Kept mode a account s)
    (use : Access ο α) (enough : ∀ object ∈ use.objects, a.Shows object) :
    Kept mode a (account.after s use) (Session.access use s).2 := by
  cases use with
  | refresh objects start stop => exact kept.preserves_refresh enough start stop
  | read objects pass =>
    by_cases covered : s.buffer.stop ≤ objects.length
    · have ready := kept.ready covered enough
      rw [Session.access, Session.viewed_covered covered, Account.after, if_pos covered]
      exact kept.preserves_passes ready (Session.pass_passes pass ready)
    · obtain ⟨note, aborted⟩ := Session.viewed_short covered (Session.pass objects pass)
      rw [Session.access, aborted, Account.after, if_neg covered]
      exact kept

theorem preserves_accessAll [Scalar α] {s : Session ο α} (kept : Kept mode a account s)
    (uses : List (Access ο α)) (enough : ∀ use ∈ uses, ∀ object ∈ use.objects, a.Shows object) :
    Kept mode a (account.ofRun s uses) (s.accessAll uses) := by
  induction uses generalizing s account with
  | nil => exact kept
  | cons use rest ih =>
    exact ih (kept.preserves_access use (enough use (by simp)))
      fun other member => enough other (List.mem_cons_of_mem _ member)

end Kept

-- For every run over objects that show enough: the collection is looked up once for each accessor
-- read, and the counters are those of the account. Read live, every slot that is read costs one; a
-- copy costs one for each tuple of each refresh, and reading it nothing; a cache costs one for each
-- distinct slot that is read in a cycle, and every other read of a slot is a hit.
theorem reads_balance [Scalar α] {name : String} {mode : Mode} {a : Accessor ο α} {b : Buffer ο α}
    (made : Buffer.new? name mode a = .ok b) (uses : List (Access ο α))
    (enough : ∀ use ∈ uses, ∀ object ∈ use.objects, a.Shows object) :
    Balances mode (Account.initial.ofRun ⟨b, 0⟩ uses) (Session.accessAll ⟨b, 0⟩ uses) := by
  unfold Buffer.new? at made
  split at made
  · rename_i positive
    cases made
    exact ((Kept.initial positive).preserves_accessAll uses enough).toBalances
  · cases made

def Access.varied : List (Access (List UInt64) UInt64) :=
  [.refresh [[1, 2], [3, 4]] 0 2, .read [[1, 2], [3, 4]] (.value 1), .read [[1, 2], [3, 4]] (.tuple 0),
    .read [[1, 2], [3, 4]] .list, .refresh [[5, 6], [7, 8]] 0 2, .read [[5, 6], [7, 8]] (.search 7 1),
    .read [[5, 6], [7, 8]] (.tuple 1)]

-- Eleven slots are read. All four are fetched in the first cycle, and three of them in the second,
-- where the one slot that is read twice is a hit.
theorem reads_balance_cached :
    Buffer.new? "rows" .cache Accessor.rows =
      .ok (.initial "rows" .cache Accessor.rows Nat.zero_lt_two) ∧
    (∀ use ∈ Access.varied, ∀ object ∈ use.objects, Accessor.rows.Shows object) ∧
    ∃ s, s = Session.accessAll ⟨.initial "rows" .cache Accessor.rows Nat.zero_lt_two, 0⟩
        Access.varied ∧
      s.lookups = 7 ∧ s.buffer.stats.accessorReads = 7 ∧ s.buffer.stats.cacheHits = 4 := by
  have made : Buffer.new? "rows" .cache Accessor.rows =
      .ok (.initial "rows" .cache Accessor.rows Nat.zero_lt_two) := rfl
  have enough : ∀ use ∈ Access.varied, ∀ object ∈ use.objects, Accessor.rows.Shows object := by decide
  have balanced := reads_balance made Access.varied enough
  have account : Account.initial.ofRun ⟨.initial "rows" .cache Accessor.rows Nat.zero_lt_two, 0⟩
      Access.varied = ⟨2, 4, 11, 4, [1, 2, 2, 3]⟩ := rfl
  rw [account] at balanced
  obtain ⟨reads, distinct⟩ := balanced.cached rfl
  have three : [1, 2, 2, 3].toFinset.card = 3 := rfl
  rw [three] at distinct
  refine ⟨made, enough, _, rfl, ?_, distinct, ?_⟩
  · rw [← balanced.lookups, distinct]
  · rw [distinct] at reads
    exact Nat.add_left_cancel reads

end InSitu
