import InSitu.Proofs.Outcome
import InSitu.Projection.View
namespace InSitu

namespace Accessor

-- Enough scalars of one object. The program relies on it and checks it only when it reads.
def Shows (a : Accessor ο α) (object : ο) : Prop := a.components ≤ (a.read object).length

instance (a : Accessor ο α) (object : ο) : Decidable (a.Shows object) :=
  inferInstanceAs (Decidable (_ ≤ _))

def halves : Accessor (UInt64 × UInt64) UInt64 := ⟨2, fun pair => [pair.1, pair.2]⟩

def rows : Accessor (List UInt64) UInt64 := ⟨2, id⟩

-- The scalar behind a slot of a range that begins at `start`: which object, and which of its scalars.
def component? (a : Accessor ο α) (objects : List ο) (start slot : Nat) : Option α :=
  objects[start + slot / a.components]?.bind fun object => (a.read object)[slot % a.components]?

theorem tuple_shown (a : Accessor ο α) (shown : a.Shows object) :
    a.tuple? object = some ((a.read object).take a.components) := if_pos shown

theorem tuple_missing (a : Accessor ο α) (short : ¬ a.Shows object) : a.tuple? object = none :=
  if_neg short

theorem component_shown (a : Accessor ο α) (positive : 0 < a.components)
    (part : ∀ object ∈ objects.extract start stop, a.Shows object)
    (inside : slot < a.components * (stop - start)) (within : stop ≤ objects.length) :
    ∃ value, a.component? objects start slot = some value := by
  have tuple : slot / a.components < stop - start := Nat.div_lt_of_lt_mul inside
  have below : start + slot / a.components < objects.length :=
    Nat.lt_of_lt_of_le (Nat.add_lt_of_lt_sub' tuple) within
  have member : objects[start + slot / a.components] ∈ objects.extract start stop := by
    apply List.mem_of_getElem? (i := slot / a.components)
    simp [tuple, below]
  have offset := Nat.mod_lt slot positive
  exact ⟨_, by
    simp only [component?, List.getElem?_eq_getElem below, Option.bind_some]
    exact List.getElem?_eq_getElem (Nat.lt_of_lt_of_le offset (part _ member))⟩

theorem component_exists (a : Accessor ο α) (positive : 0 < a.components)
    (shown : ∀ object ∈ objects, a.Shows object)
    (inside : slot < a.components * (stop - start)) (within : stop ≤ objects.length) :
    ∃ value, a.component? objects start slot = some value :=
  a.component_shown positive
    (fun object member => shown object (List.mem_of_mem_drop (List.mem_of_mem_take member))) inside within

theorem flatMap_block (objects : List ο) (block : ο → List α) (positive : 0 < size)
    (uniform : ∀ object ∈ objects, (block object).length = size) (slot : Nat) :
    (objects.flatMap block)[slot]? =
      objects[slot / size]?.bind fun object => (block object)[slot % size]? := by
  induction objects generalizing slot with
  | nil => simp
  | cons object rest ih =>
    have length := uniform object (by simp)
    have others := ih fun other member => uniform other (List.mem_cons_of_mem _ member)
    by_cases first : slot < size
    · rw [List.flatMap_cons, List.getElem?_append_left (by omega), Nat.div_eq_of_lt first,
        Nat.mod_eq_of_lt first]
      simp
    · have split : slot = (slot - size) + size := by omega
      rw [List.flatMap_cons, List.getElem?_append_right (by omega), length, others, split,
        Nat.add_div_right _ positive, Nat.add_mod_right, Nat.add_sub_cancel]
      simp

theorem copyAll_complete (a : Accessor ο α) (shown : ∀ object ∈ objects, a.Shows object) :
    a.copyAll objects =
      ⟨objects.flatMap fun object => (a.read object).take a.components, objects.length, true⟩ := by
  induction objects with
  | nil => rfl
  | cons object rest ih =>
    have others := ih fun other member => shown other (List.mem_cons_of_mem _ member)
    simp [copyAll, tuple_shown a (shown object (by simp)), others]

theorem copyAll_shown (a : Accessor ο α) (complete : (a.copyAll objects).complete = true) :
    ∀ object ∈ objects, a.Shows object := by
  induction objects with
  | nil =>
    intro object member
    cases member
  | cons object rest ih =>
    by_cases shown : a.Shows object
    · simp only [copyAll, tuple_shown a shown] at complete
      intro other member
      rcases List.mem_cons.mp member with rfl | member
      · exact shown
      · exact ih complete other member
    · simp [copyAll, tuple_missing a shown] at complete

theorem copied_slot (a : Accessor ο α) (positive : 0 < a.components)
    (part : ∀ object ∈ objects.extract start stop, a.Shows object)
    (inside : slot < a.components * (stop - start)) :
    (a.copyAll (objects.extract start stop)).values[slot]? = a.component? objects start slot := by
  have tuple : slot / a.components < stop - start := Nat.div_lt_of_lt_mul inside
  have place := Nat.mod_lt slot positive
  rw [copyAll_complete a part, flatMap_block _ _ positive fun object member => ?_]
  · simp [component?, List.extract_eq_take_drop, tuple, place]
  · exact (List.length_take ..).trans (Nat.min_eq_left (part object member))

end Accessor

theorem Buffer.live_component (b : Buffer ο α) (shown : ∀ object ∈ objects, b.accessor.Shows object)
    (slot : Nat) : b.live? objects slot = b.accessor.component? objects b.start slot := by
  have place := Nat.mod_lt slot b.components_pos
  show (objects[b.start + slot / b.accessor.components]?.bind fun object =>
    (b.accessor.tuple? object).bind fun tuple => tuple[slot % b.accessor.components]?) = _
  unfold Accessor.component?
  cases found : objects[b.start + slot / b.accessor.components]? with
  | none => rfl
  | some object =>
    have tuple := b.accessor.tuple_shown (shown object (List.mem_of_getElem? found))
    simp [tuple, place]

namespace Staging

def held? : Staging α → Nat → Option α
  | .direct, _ => none
  | .copied values, slot => values[slot]?
  | .cached slots current, slot =>
    slots[slot]?.bind fun held => if held.stamp = current then some held.value else none

def filled : Staging α → Nat → α → Staging α
  | .cached slots current, slot, value => .cached (slots.set slot ⟨value, current⟩) current
  | staging, _, _ => staging

def Sized (size : Nat) : Staging α → Prop
  | .cached slots _ => slots.length = size
  | _ => True

def Dated : Staging α → Prop
  | .cached slots current => ∀ slot ∈ slots, slot.stamp.index ≤ current.index
  | _ => True

theorem initial_dated (mode : Mode) : (initial mode : Staging α).Dated := by
  cases mode <;> simp [initial, Dated]

theorem initial_mode (mode : Mode) : (initial mode : Staging α).mode = mode := by
  cases mode <;> rfl

theorem filled_mode (staging : Staging α) : (staging.filled slot value).mode = staging.mode := by
  cases staging <;> rfl

theorem filled_sized {staging : Staging α} (sized : staging.Sized size) :
    (staging.filled slot value).Sized size := by
  cases staging with
  | direct => trivial
  | copied values => trivial
  | cached slots current => simpa [filled, Sized] using sized

theorem filled_dated {staging : Staging α} (dated : staging.Dated) :
    (staging.filled slot value).Dated := by
  cases staging with
  | direct => trivial
  | copied values => trivial
  | cached slots current =>
    intro held member
    rcases List.mem_or_eq_of_mem_set member with old | rfl
    · exact dated held old
    · exact Nat.le_refl _

theorem filled_held {staging : Staging α} (cached : staging.mode = .cache)
    (sized : staging.Sized size) (inside : slot < size) (other : Nat) :
    (staging.filled slot value).held? other =
      if other = slot then some value else staging.held? other := by
  cases staging with
  | direct => cases cached
  | copied values => cases cached
  | cached slots current =>
    have length : slots.length = size := sized
    by_cases same : other = slot
    · subst other
      simp [filled, held?, length, inside]
    · simp [filled, held?, same, Ne.symm same]

theorem filled_direct {staging : Staging α} (direct : staging.mode = .zeroCopy) :
    staging.filled slot value = staging := by
  cases staging with
  | direct => rfl
  | copied values => cases direct
  | cached slots current => cases direct

theorem resized_length [Scalar α] (slots : List (Slot α)) (size : Nat) :
    (resized slots size).length = size := by
  simp [resized]
  omega

theorem resized_stamp [Scalar α] {slots : List (Slot α)} (member : held ∈ resized slots size) :
    held ∈ slots ∨ held.stamp = .never := by
  rcases List.mem_append.mp member with kept | new
  · exact .inl (List.mem_of_mem_take kept)
  · exact .inr (by rw [List.eq_of_mem_replicate new])

theorem renewed_fresh [Scalar α] (slots : List (Slot α)) (current : Generation) (size : Nat)
    (dated : (cached slots current).Dated) :
    ∃ kept next, renewed slots current size = .cached kept next ∧ kept.length = size ∧
      ∀ held ∈ kept, held.stamp.index < next.index := by
  unfold renewed
  cases counted : current.next? with
  | some next =>
    have later : next.index = current.index + 1 := by
      unfold Generation.next? at counted
      split at counted
      · cases counted; rfl
      · cases counted
    refine ⟨_, next, rfl, resized_length .., ?_⟩
    intro held member
    rcases resized_stamp member with old | never
    · have := dated held old
      omega
    · rw [never, later]
      exact Nat.succ_pos _
  | none =>
    refine ⟨_, ⟨1⟩, rfl, resized_length .., ?_⟩
    intro held member
    rcases resized_stamp member with wiped | never
    · obtain ⟨_, _, rfl⟩ := List.mem_map.mp wiped
      exact Nat.zero_lt_one
    · rw [never]
      exact Nat.zero_lt_one

end Staging

theorem Buffer.made_accessor {b other : Buffer ο α} (made : b.fork = other.fork) :
    b.accessor = other.accessor := by
  have same := congrArg Buffer.accessor made
  exact same

theorem Buffer.made_mode {b other : Buffer ο α} (made : b.fork = other.fork) :
    b.mode = other.mode := by
  have same := congrArg Buffer.mode made
  simpa [Buffer.fork, Buffer.mode, Buffer.initial, Staging.initial_mode] using same

namespace Session

-- Everything that a read of one slot can do. What is held is answered as it is; what is not held is
-- fetched and kept; a read that shows nothing aborts.
inductive ReadsSlot (objects : List ο) (slot : Nat) (s : Session ο α) :
    Outcome ε α × Session ο α → Prop where
  | held (hits : Nat) (found : s.buffer.staging.held? slot = some value) :
      ReadsSlot objects slot s (.ok value, {s with buffer := s.buffer.counting 0 0 hits})
  | fetched (missing : s.buffer.staging.held? slot = none) (lazily : s.buffer.mode ≠ .copy)
      (seen : s.buffer.live? objects slot = some value) :
      ReadsSlot objects slot s
        (.ok value, s.reading.staged (s.buffer.staging.filled slot value))
  | unseen (missing : s.buffer.staging.held? slot = none)
      (unseen : s.buffer.live? objects slot = none) :
      ReadsSlot objects slot s (.error (.abort none), s.reading)
  | absent (missing : s.buffer.staging.held? slot = none)
      (beyond : s.buffer.mode = .copy ∨ ∀ size, s.buffer.staging.Sized size → size ≤ slot) :
      ReadsSlot objects slot s (.error (.abort none), s)

theorem counting_nothing (b : Buffer ο α) : b.counting 0 0 0 = b := rfl

theorem readSlot_sound (objects : List ο) (slot : Nat) (s : Session ο α) :
    ReadsSlot (ε := ε) objects slot s (readSlot objects slot s) := by
  obtain ⟨b, lookups⟩ := s
  cases staged : b.staging with
  | direct =>
    have missing : b.staging.held? slot = none := by rw [staged]; rfl
    have lazily : b.mode ≠ .copy := by simp [Buffer.mode, staged, Staging.mode]
    cases seen : b.live? objects slot with
    | none =>
      simpa [readSlot, staged, live, seen] using ReadsSlot.unseen (s := ⟨b, lookups⟩) missing seen
    | some value =>
      simpa [readSlot, staged, live, seen, Staging.filled, Session.staged, reading,
        Buffer.counting] using ReadsSlot.fetched (s := ⟨b, lookups⟩) missing lazily seen
  | copied values =>
    cases found : values[slot]? with
    | none =>
      have missing : b.staging.held? slot = none := by rw [staged]; exact found
      have copy : b.mode = .copy := by simp [Buffer.mode, staged, Staging.mode]
      simpa [readSlot, staged, found] using ReadsSlot.absent (s := ⟨b, lookups⟩) missing (.inl copy)
    | some value =>
      have held : b.staging.held? slot = some value := by rw [staged]; exact found
      simpa [readSlot, staged, found, counting_nothing] using
        ReadsSlot.held (s := ⟨b, lookups⟩) 0 held
  | cached slots current =>
    have lazily : b.mode ≠ .copy := by simp [Buffer.mode, staged, Staging.mode]
    cases found : slots[slot]? with
    | none =>
      have missing : b.staging.held? slot = none := by simp [staged, Staging.held?, found]
      have beyond : ∀ size, b.staging.Sized size → size ≤ slot := by
        intro size sized
        rw [staged] at sized
        exact sized ▸ List.getElem?_eq_none_iff.mp found
      simpa [readSlot, staged, found] using
        ReadsSlot.absent (s := ⟨b, lookups⟩) missing (.inr beyond)
    | some held =>
      by_cases valid : held.stamp = current
      · have kept : b.staging.held? slot = some held.value := by
          simp [staged, Staging.held?, found, valid]
        simpa [readSlot, staged, found, valid] using
          ReadsSlot.held (s := ⟨b, lookups⟩) 1 kept
      · have missing : b.staging.held? slot = none := by
          simp [staged, Staging.held?, found, valid]
        cases seen : b.live? objects slot with
        | none =>
          simpa [readSlot, staged, found, valid, live, seen] using
            ReadsSlot.unseen (s := ⟨b, lookups⟩) missing seen
        | some value =>
          simpa [readSlot, staged, found, valid, live, seen, Staging.filled] using
            ReadsSlot.fetched (s := ⟨b, lookups⟩) missing lazily seen

theorem reads_keep (read : ReadsSlot objects slot s result) :
    result.2.buffer.fork = s.buffer.fork ∧ result.2.buffer.start = s.buffer.start ∧
      result.2.buffer.stop = s.buffer.stop := by
  cases read with
  | held hits found => exact ⟨rfl, rfl, rfl⟩
  | fetched missing lazily seen =>
    refine ⟨?_, rfl, rfl⟩
    simp only [Buffer.fork, staged, reading, Buffer.counting, Staging.filled_mode]
  | unseen missing unseen => exact ⟨rfl, rfl, rfl⟩
  | absent missing beyond => exact ⟨rfl, rfl, rfl⟩

theorem reads_dated (read : ReadsSlot objects slot s result)
    (dated : s.buffer.staging.Dated) : result.2.buffer.staging.Dated := by
  cases read with
  | held hits found => exact dated
  | fetched missing lazily seen => exact Staging.filled_dated dated
  | unseen missing unseen => exact dated
  | absent missing beyond => exact dated

theorem reads_sized (read : ReadsSlot objects slot s result)
    (sized : s.buffer.staging.Sized size) : result.2.buffer.staging.Sized size := by
  cases read with
  | held hits found => exact sized
  | fetched missing lazily seen => exact Staging.filled_sized sized
  | unseen missing unseen => exact sized
  | absent missing beyond => exact sized

inductive Refreshes [Scalar α] (objects : List ο) (start stop : Nat) (s : Session ο α) :
    Outcome ProjectionError Unit × Session ο α → Prop where
  | refused (outside : stop < start ∨ objects.length < stop) :
      Refreshes objects start stop s
        (.error (.error (.rangeOutOfBounds start stop objects.length)), s)
  | bound (ordered : start ≤ stop) (within : stop ≤ objects.length)
      (staging : s.buffer.staging = .direct) :
      Refreshes objects start stop s
        (.ok (), {s with buffer := (s.buffer.bind start stop).counting 1 0 0})
  | copied (ordered : start ≤ stop) (within : stop ≤ objects.length)
      (staging : s.buffer.staging = .copied old)
      (copy : s.buffer.accessor.copyAll ((objects.drop start).take (stop - start)) =
        ⟨values, counted, true⟩) :
      Refreshes objects start stop s
        (.ok (), ⟨{s.buffer.bind start stop with staging := .copied values}.counting 1 (stop - start) 0,
          s.lookups + counted⟩)
  | interrupted (ordered : start ≤ stop) (within : stop ≤ objects.length)
      (staging : s.buffer.staging = .copied old)
      (copy : s.buffer.accessor.copyAll ((objects.drop start).take (stop - start)) =
        ⟨values, counted, false⟩) :
      Refreshes objects start stop s
        (.error (.abort none), ⟨{s.buffer.bind start stop with staging := .copied values},
          s.lookups + counted⟩)
  | renewed (ordered : start ≤ stop) (within : stop ≤ objects.length)
      (staging : s.buffer.staging = .cached slots current) :
      Refreshes objects start stop s
        (.ok (), {s with buffer := {s.buffer.bind start stop with
          staging := .renewed slots current (s.buffer.bind start stop).size}.counting 1 0 0})

theorem refresh_sound [Scalar α] (objects : List ο) (start stop : Nat) (s : Session ο α) :
    Refreshes objects start stop s (refresh objects start stop s) := by
  by_cases outside : stop < start ∨ objects.length < stop
  · simpa [refresh, outside] using Refreshes.refused (s := s) outside
  · have ordered : start ≤ stop := by omega
    have within : stop ≤ objects.length := by omega
    cases staging : s.buffer.staging with
    | direct =>
      simpa [refresh, outside, Buffer.bind, staging] using
        Refreshes.bound (s := s) ordered within staging
    | copied old =>
      cases copy : s.buffer.accessor.copyAll ((objects.drop start).take (stop - start)) with
      | mk values lookups complete =>
        cases complete with
        | true =>
          simpa [refresh, outside, Buffer.bind, staging, copy] using
            Refreshes.copied (s := s) ordered within staging copy
        | false =>
          simpa [refresh, outside, Buffer.bind, staging, copy] using
            Refreshes.interrupted (s := s) ordered within staging copy
    | cached slots current =>
      simpa [refresh, outside, Buffer.bind, staging] using
        Refreshes.renewed (s := s) ordered within staging

theorem refreshes_keep [Scalar α] {s : Session ο α}
    (refresh : Refreshes objects start stop s result) :
    result.2.buffer.fork = s.buffer.fork := by
  have mode : ∀ staging : Staging α, staging.mode = s.buffer.staging.mode →
      Buffer.initial s.buffer.name staging.mode s.buffer.accessor s.buffer.components_pos =
        s.buffer.fork := fun staging same => by rw [same]; rfl
  cases refresh with
  | refused outside => rfl
  | bound ordered within staging => rfl
  | copied ordered within staging copy => exact mode (.copied _) (by rw [staging]; rfl)
  | interrupted ordered within staging copy => exact mode (.copied _) (by rw [staging]; rfl)
  | renewed ordered within staging =>
    apply mode (.renewed _ _ _)
    rw [staging]
    unfold Staging.renewed
    split <;> rfl

theorem refreshes_dated [Scalar α] {s : Session ο α}
    (refresh : Refreshes objects start stop s result) (dated : s.buffer.staging.Dated) :
    result.2.buffer.staging.Dated := by
  cases refresh with
  | refused outside => exact dated
  | bound ordered within staging => exact dated
  | copied ordered within staging copy => trivial
  | interrupted ordered within staging copy => trivial
  | renewed ordered within staging =>
    rw [staging] at dated
    obtain ⟨kept, next, renewed, -, older⟩ := Staging.renewed_fresh _ _ _ dated
    show Staging.Dated (.renewed _ _ _)
    rw [renewed]
    exact fun held member => Nat.le_of_lt (older held member)

-- What a refresh that went through leaves behind: the new range, and nothing of an older cycle.
structure Refreshed (objects : List ο) (start stop : Nat) (before after : Buffer ο α) : Prop where
  made : after.fork = before.fork
  start_eq : after.start = start
  stop_eq : after.stop = stop
  within : stop ≤ objects.length
  sized : after.staging.Sized after.size
  dated : after.staging.Dated
  copied : after.mode = .copy → ∀ object ∈ objects.extract start stop, after.accessor.Shows object
  held : ∀ slot < after.size, after.staging.held? slot =
    if after.mode = .copy then after.accessor.component? objects start slot else none

theorem stale_unheld {slots : List (Slot α)}
    (older : ∀ held ∈ slots, held.stamp.index < current.index) (slot : Nat) :
    (Staging.cached slots current).held? slot = none := by
  cases found : slots[slot]? with
  | none => simp [Staging.held?, found]
  | some held =>
    have stale : held.stamp ≠ current := by
      intro same
      have := older held (List.mem_of_getElem? found)
      exact Nat.lt_irrefl _ (same ▸ this)
    simp [Staging.held?, found, stale]

theorem refresh_answered [Scalar α] {s : Session ο α} (dated : s.buffer.staging.Dated)
    (answered : (refresh objects start stop s).1 = .ok ()) :
    Refreshed objects start stop s.buffer (refresh objects start stop s).2.buffer := by
  have sound := refresh_sound objects start stop s
  have made := refreshes_keep sound
  have later := refreshes_dated sound dated
  generalize refresh objects start stop s = result at sound made later answered ⊢
  cases sound with
  | refused outside => cases answered
  | bound ordered within staging =>
    refine ⟨made, rfl, rfl, within, ?_, later, ?_, ?_⟩
    all_goals simp [Buffer.counting, Buffer.bind, Buffer.mode, staging, Staging.Sized,
      Staging.held?, Staging.mode]
  | copied ordered within staging copy =>
    have complete : (s.buffer.accessor.copyAll (objects.extract start stop)).complete = true :=
      congrArg Accessor.Copied.complete copy
    have shown := s.buffer.accessor.copyAll_shown complete
    refine ⟨made, rfl, rfl, within, trivial, later, fun _ => shown, ?_⟩
    intro slot inside
    have filled := Accessor.copied_slot _ s.buffer.components_pos shown inside
    rw [List.extract_eq_take_drop, copy] at filled
    exact filled.trans (if_pos rfl).symm
  | interrupted ordered within staging copy => cases answered
  | renewed ordered within staging =>
    rename_i slots current
    rw [staging] at dated
    obtain ⟨kept, next, renewed, length, older⟩ :=
      Staging.renewed_fresh _ _ (s.buffer.bind start stop).size dated
    have lazily : (Staging.renewed slots current (s.buffer.bind start stop).size).mode ≠ .copy := by
      simp [renewed, Staging.mode]
    refine ⟨made, rfl, rfl, within, ?_, later, fun copy => absurd copy lazily, ?_⟩
    · show Staging.Sized (s.buffer.bind start stop).size (.renewed _ _ _)
      rw [renewed]
      exact length
    · intro slot inside
      show (Staging.renewed _ _ _).held? slot = if (Staging.renewed _ _ _).mode = .copy then _ else none
      rw [if_neg lazily, renewed]
      exact stale_unheld older slot

theorem refresh_complete [Scalar α] {s : Session ο α}
    (shown : ∀ object ∈ objects, s.buffer.accessor.Shows object)
    (ordered : start ≤ stop) (within : stop ≤ objects.length) :
    (refresh objects start stop s).1 = .ok () := by
  have sound := refresh_sound objects start stop s
  generalize refresh objects start stop s = result at sound ⊢
  cases sound with
  | refused outside => omega
  | bound ordered within staging => rfl
  | copied ordered within staging copy => rfl
  | interrupted ordered within staging copy =>
    have part : ∀ object ∈ (objects.drop start).take (stop - start), s.buffer.accessor.Shows object :=
      fun object member => shown object (List.mem_of_mem_drop (List.mem_of_mem_take member))
    rw [Accessor.copyAll_complete _ part] at copy
    cases copy
  | renewed ordered within staging => rfl

end Session
end InSitu
