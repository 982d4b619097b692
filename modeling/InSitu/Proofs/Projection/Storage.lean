import InSitu.Proofs.Projection.Agreement
namespace InSitu

namespace Generation

def nth : Nat → Generation
  | 0 => never
  | refreshes + 1 => ⟨refreshes % (Nat.pow 2 64 - 1) + 1⟩

theorem nth_index (fits : refreshes < Nat.pow 2 64) : (nth refreshes).index = refreshes := by
  cases refreshes with
  | zero => rfl
  | succ refreshes =>
    have below : refreshes < Nat.pow 2 64 - 1 := Nat.lt_sub_of_add_lt fits
    rw [nth, Nat.mod_eq_of_lt below]

theorem nth_next (refreshes : Nat) : (nth refreshes).next?.getD ⟨1⟩ = nth (refreshes + 1) := by
  cases refreshes with
  | zero => rfl
  | succ refreshes =>
    have limit : Nat.pow 2 64 = Nat.pow 2 64 - 1 + 1 := by decide
    have several : 1 < Nat.pow 2 64 - 1 := by decide
    rw [nth, nth, next?, limit]
    generalize Nat.pow 2 64 - 1 = last at several ⊢
    have place := Nat.mod_lt refreshes (Nat.zero_lt_of_lt several)
    rw [Nat.add_mod_eq_ite, Nat.mod_eq_of_lt several]
    dsimp only
    by_cases full : last ≤ refreshes % last + 1
    · have ends : refreshes % last + 1 = last := Nat.le_antisymm place full
      rw [if_pos full, if_neg (by omega), ends, Nat.sub_self]
      rfl
    · rw [if_neg full, if_pos (by omega)]
      rfl

end Generation

theorem Accessor.copyAll_length (a : Accessor ο α) (shown : ∀ object ∈ objects, a.Shows object) :
    (a.copyAll objects).values.length = a.components * objects.length := by
  have each : ∀ object ∈ objects, ((a.read object).take a.components).length = a.components :=
    fun object member => (List.length_take ..).trans (Nat.min_eq_left (shown object member))
  rw [copyAll_complete a shown, List.length_flatMap, List.map_congr_left each, List.map_const',
    List.sum_replicate_nat, Nat.mul_comm]

-- What a projection owns, as it is laid out: no list knows of the length of another.
inductive Store (α : Type) where
  | none
  | copied (values : List α)
  | cached (values : List α) (stamps : List Generation) (current : Generation)

def Staging.store : Staging α → Store α
  | .direct => .none
  | .copied values => .copied values
  | .cached slots current => .cached (slots.map (·.value)) (slots.map (·.stamp)) current

namespace Store

def resize (xs : List β) (size : Nat) (filler : β) : List β :=
  xs.take size ++ List.replicate (size - xs.length) filler

def renewed [Scalar α] (values : List α) (stamps : List Generation) (current : Generation) (size : Nat) :
    Store α :=
  match current.next? with
  | some next => .cached (resize values size Scalar.zero) (resize stamps size .never) next
  | Option.none =>
    .cached (resize values size Scalar.zero) (resize (stamps.map fun _ => .never) size .never) ⟨1⟩

def refreshed [Scalar α] (a : Accessor ο α) (objects : List ο) (start stop : Nat) : Store α → Store α
  | .none => .none
  | .copied _ => .copied (a.copyAll (objects.extract start stop)).values
  | .cached values stamps current => renewed values stamps current (a.components * (stop - start))

-- A read, index by index. `shown` is what the collection has for the slot, and is looked for only where
-- nothing is held. There is no value where an index is out of what it points into.
def readCached (slot : Nat) (shown : Option α) (values : List α) (stamps : List Generation)
    (current : Generation) : Option α × Store α :=
  match stamps[slot]? with
  | Option.none => (Option.none, .cached values stamps current)
  | some stamp =>
    if stamp = current then (values[slot]?, .cached values stamps current)
    else match shown with
      | Option.none => (Option.none, .cached values stamps current)
      | some value =>
        if slot < values.length then
          (some value, .cached (values.set slot value) (stamps.set slot current) current)
        else (Option.none, .cached values stamps current)

def read (slot : Nat) (shown : Option α) : Store α → Option α × Store α
  | .none => (shown, .none)
  | .copied values => (values[slot]?, .copied values)
  | .cached values stamps current => readCached slot shown values stamps current

def Fits (size : Nat) : Store α → Prop
  | .none => True
  | .copied values => values.length = size
  | .cached values stamps current =>
    values.length = size ∧ stamps.length = size ∧ ∀ stamp ∈ stamps, stamp.index ≤ current.index

def Turned (refreshes : Nat) : Store α → Prop
  | .cached _ _ current => current = .nth refreshes
  | _ => True

def Holds (slot : Nat) : Store α → Prop
  | .none => True
  | .copied values => slot < values.length
  | .cached values stamps _ => slot < values.length ∧ slot < stamps.length

def stamps : Store α → List Generation
  | .cached _ stamps _ => stamps
  | _ => []

theorem resize_length (xs : List β) (size : Nat) (filler : β) : (resize xs size filler).length = size := by
  simp [resize]
  omega

theorem resize_member (member : x ∈ resize xs size filler) : x ∈ xs ∨ x = filler := by
  rcases List.mem_append.mp member with kept | new
  · exact .inl (List.mem_of_mem_take kept)
  · exact .inr (List.eq_of_mem_replicate new)

theorem resize_map (f : α → β) (xs : List α) (size : Nat) (filler : α) :
    (resize xs size filler).map f = resize (xs.map f) size (f filler) := by
  simp [resize]

theorem fits_holds {store : Store α} (fits : store.Fits size) (inside : slot < size) :
    store.Holds slot := by
  cases store with
  | none => trivial
  | copied values => exact Nat.lt_of_lt_of_eq inside fits.symm
  | cached values stamps current =>
    exact ⟨Nat.lt_of_lt_of_eq inside fits.1.symm, Nat.lt_of_lt_of_eq inside fits.2.1.symm⟩

theorem readCached_writes (slot : Nat) (shown : Option α) (values : List α) (stamps : List Generation)
    (current : Generation) :
    (readCached slot shown values stamps current).2 = .cached values stamps current ∨
      ∃ value, (readCached slot shown values stamps current).2 =
        .cached (values.set slot value) (stamps.set slot current) current := by
  unfold readCached
  split
  · exact .inl rfl
  split
  · exact .inl rfl
  split
  · exact .inl rfl
  split
  · exact .inr ⟨_, rfl⟩
  · exact .inl rfl

theorem read_writes (store : Store α) (slot : Nat) (shown : Option α) :
    (store.read slot shown).2 = store ∨ ∃ values stamps current value,
      store = .cached values stamps current ∧
      (store.read slot shown).2 = .cached (values.set slot value) (stamps.set slot current) current := by
  cases store with
  | none => exact .inl rfl
  | copied values => exact .inl rfl
  | cached values stamps current =>
    rcases readCached_writes slot shown values stamps current with same | ⟨value, written⟩
    · exact .inl same
    · exact .inr ⟨values, stamps, current, value, rfl, written⟩

theorem read_fits {store : Store α} (fits : store.Fits size) (slot : Nat) (shown : Option α) :
    (store.read slot shown).2.Fits size := by
  rcases store.read_writes slot shown with same | ⟨values, stamps, current, value, rfl, written⟩
  · rwa [same]
  · obtain ⟨valued, stamped, dated⟩ := fits
    rw [written]
    refine ⟨List.length_set.trans valued, List.length_set.trans stamped, fun stamp member => ?_⟩
    rcases List.mem_or_eq_of_mem_set member with old | rfl
    · exact dated stamp old
    · exact Nat.le_refl _

theorem read_turned {store : Store α} (turned : store.Turned refreshes) (slot : Nat) (shown : Option α) :
    (store.read slot shown).2.Turned refreshes := by
  rcases store.read_writes slot shown with same | ⟨values, stamps, current, value, rfl, written⟩
  · rwa [same]
  · rw [written]
    exact turned

theorem read_held {store : Store α} (holds : store.Holds slot) (value : α) :
    ∃ found, (store.read slot (some value)).1 = some found := by
  cases store with
  | none => exact ⟨value, rfl⟩
  | copied values => exact ⟨_, List.getElem?_eq_getElem holds⟩
  | cached values stamps current =>
    show ∃ found, (readCached slot (some value) values stamps current).1 = some found
    unfold readCached
    rw [List.getElem?_eq_getElem holds.2]
    dsimp only
    split
    · exact ⟨_, List.getElem?_eq_getElem holds.1⟩
    · rw [if_pos holds.1]
      exact ⟨value, rfl⟩

theorem renewed_fresh [Scalar α] (values : List α) {stamps : List Generation} {current : Generation}
    (dated : ∀ stamp ∈ stamps, stamp.index ≤ current.index) (size : Nat) :
    ∃ kept marks next, renewed values stamps current size = .cached kept marks next ∧
      kept.length = size ∧ marks.length = size ∧ (∀ stamp ∈ marks, stamp.index < next.index) ∧
      next = current.next?.getD ⟨1⟩ := by
  unfold renewed
  cases counted : current.next? with
  | some next =>
    have later : next.index = current.index + 1 := by
      unfold Generation.next? at counted
      split at counted
      · cases counted
        rfl
      · cases counted
    refine ⟨_, _, next, rfl, resize_length .., resize_length .., ?_, rfl⟩
    intro stamp member
    rw [later]
    rcases resize_member member with old | rfl
    · exact Nat.lt_succ_of_le (dated stamp old)
    · exact Nat.succ_pos _
  | none =>
    refine ⟨_, _, ⟨1⟩, rfl, resize_length .., resize_length .., ?_, rfl⟩
    intro stamp member
    rcases resize_member member with wiped | rfl
    · obtain ⟨_, -, rfl⟩ := List.mem_map.mp wiped
      exact Nat.zero_lt_one
    · exact Nat.zero_lt_one

theorem refreshed_fits [Scalar α] (a : Accessor ο α) {store : Store α} (fits : store.Fits size)
    (turned : store.Turned refreshes) (within : stop ≤ objects.length)
    (shown : ∀ object ∈ objects.extract start stop, a.Shows object) :
    (store.refreshed a objects start stop).Fits (a.components * (stop - start)) ∧
      (store.refreshed a objects start stop).Turned (refreshes + 1) ∧
      ∀ stamp ∈ (store.refreshed a objects start stop).stamps,
        stamp.index < (Generation.nth (refreshes + 1)).index := by
  cases store with
  | none => exact ⟨trivial, trivial, fun _ member => nomatch member⟩
  | copied values =>
    have length : (objects.extract start stop).length = stop - start := by
      rw [List.extract_eq_take_drop, List.length_take, List.length_drop]
      exact Nat.min_eq_left (Nat.sub_le_sub_right within _)
    have filled := a.copyAll_length shown
    rw [length] at filled
    exact ⟨filled, trivial, fun _ member => nomatch member⟩
  | cached values stamps current =>
    obtain ⟨kept, marks, next, renewed, valued, stamped, older, counted⟩ :=
      renewed_fresh values fits.2.2 (a.components * (stop - start))
    have turn : next = .nth (refreshes + 1) := by
      rw [counted, turned, Generation.nth_next]
    have after : Store.refreshed a objects start stop (.cached values stamps current) = _ := renewed
    rw [after, ← turn]
    exact ⟨⟨valued, stamped, fun stamp member => Nat.le_of_lt (older stamp member)⟩, turn, older⟩

end Store

namespace Staging

theorem store_direct {staging : Staging α} (direct : staging.mode = .zeroCopy) : staging.store = .none := by
  cases staging with
  | direct => rfl
  | copied values => cases direct
  | cached slots current => cases direct

theorem store_copied {staging : Staging α} (copied : staging.mode = .copy) :
    ∃ values, staging.store = .copied values := by
  cases staging with
  | direct => cases copied
  | copied values => exact ⟨values, rfl⟩
  | cached slots current => cases copied

theorem store_cached {staging : Staging α} (cached : staging.mode = .cache) :
    ∃ values stamps, staging.store = .cached values stamps staging.generation := by
  cases staging with
  | direct => cases cached
  | copied values => cases cached
  | cached slots current => exact ⟨_, _, rfl⟩

theorem store_unstamped {staging : Staging α} (uncached : staging.mode ≠ .cache) :
    staging.store.stamps = [] := by
  cases staging with
  | direct => rfl
  | copied values => rfl
  | cached slots current => exact absurd rfl uncached

theorem resized_map [Scalar α] (f : Slot α → β) (slots : List (Slot α)) (size : Nat) :
    (resized slots size).map f = Store.resize (slots.map f) size (f ⟨Scalar.zero, .never⟩) :=
  Store.resize_map f slots size _

theorem renewed_store [Scalar α] (slots : List (Slot α)) (current : Generation) (size : Nat) :
    (renewed slots current size).store =
      .renewed (slots.map (·.value)) (slots.map (·.stamp)) current size := by
  unfold renewed Store.renewed
  cases current.next? with
  | some next => simp only [store, resized_map]
  | none =>
    simp only [store, resized_map, List.map_map]
    rfl

theorem cached_read (slots : List (Slot α)) (current : Generation) (slot : Nat) (shown : Option α) :
    (cached slots current).store.read slot shown = match slots[slot]? with
      | none => (none, (cached slots current).store)
      | some held =>
        if held.stamp = current then (some held.value, (cached slots current).store)
        else match shown with
          | none => (none, (cached slots current).store)
          | some value => (some value, (cached (slots.set slot ⟨value, current⟩) current).store) := by
  show Store.readCached .. = _
  unfold Store.readCached
  rw [List.getElem?_map, List.getElem?_map]
  cases found : slots[slot]? with
  | none => rfl
  | some held =>
    have inside := (List.getElem?_eq_some_iff.mp found).1
    by_cases valid : held.stamp = current
    · simp only [Option.map_some, if_pos valid]
      rfl
    · simp only [Option.map_some, if_neg valid]
      cases shown with
      | none => rfl
      | some value => simp only [List.length_map, if_pos inside, store, List.map_set]

end Staging

namespace Session

theorem refresh_accepted [Scalar α] {s : Session ο α} (ordered : start ≤ stop)
    (within : stop ≤ objects.length) :
    (refresh objects start stop s).2.buffer.start = start ∧
    (refresh objects start stop s).2.buffer.stop = stop ∧
    (refresh objects start stop s).2.buffer.staging.store =
      s.buffer.staging.store.refreshed s.buffer.accessor objects start stop := by
  have sound := refresh_sound objects start stop s
  generalize refresh objects start stop s = result at sound ⊢
  cases sound with
  | refused outside => omega
  | bound ordered within staging =>
    refine ⟨rfl, rfl, ?_⟩
    show s.buffer.staging.store = _
    rw [staging]
    rfl
  | copied ordered within staging copy | interrupted ordered within staging copy =>
    refine ⟨rfl, rfl, ?_⟩
    rw [staging]
    show _ = Store.copied (s.buffer.accessor.copyAll (objects.extract start stop)).values
    rw [List.extract_eq_take_drop, copy]
    rfl
  | renewed ordered within staging =>
    refine ⟨rfl, rfl, ?_⟩
    rw [staging]
    exact Staging.renewed_store ..

theorem viewed_passes [Scalar α] {s : Session ο α} (covered : s.buffer.stop ≤ objects.length) (pass : Pass α) :
    ∃ slots, Passes objects s slots (viewed objects (Session.pass objects pass) s).2 := by
  have slotwise : Slotwise s.buffer.size objects (Session.pass objects pass) := pass_slotwise pass
  rw [viewed_covered covered]
  exact slotwise s rfl

end Session

theorem Buffer.answer_store (b : Buffer ο α) (objects : List ο) (slot : Nat) :
    b.answer? objects slot = (b.staging.store.read slot (b.live? objects slot)).1 := by
  unfold answer?
  cases b.staging with
  | direct => rfl
  | copied values => rfl
  | cached slots current =>
    rw [Staging.cached_read]
    dsimp only
    cases slots[slot]? with
    | none => rfl
    | some held =>
      rw [Option.bind_some]
      dsimp only
      split
      · rfl
      · cases b.live? objects slot <;> rfl

theorem Session.readSlot_store (objects : List ο) (slot : Nat) (s : Session ο α) :
    (readSlot (ε := ε) objects slot s).2.buffer.staging.store =
      (s.buffer.staging.store.read slot (s.buffer.live? objects slot)).2 := by
  unfold readSlot
  cases staging : s.buffer.staging with
  | direct =>
    unfold live
    cases s.buffer.live? objects slot <;> exact congrArg Staging.store staging
  | copied values =>
    dsimp only
    cases values[slot]? <;> exact congrArg Staging.store staging
  | cached slots current =>
    rw [Staging.cached_read]
    dsimp only
    cases slots[slot]? with
    | none => exact congrArg Staging.store staging
    | some held =>
      dsimp only
      split
      · exact congrArg Staging.store staging
      · unfold live
        cases s.buffer.live? objects slot with
        | none => exact congrArg Staging.store staging
        | some value => rfl

inductive Buffer.Begins : Mode → Accessor ο α → Buffer ο α → Prop where
  | made {name : String} {mode : Mode} (made : Buffer.new? name mode a = .ok b) : Begins mode a b
  | forked (other : Buffer ο α) : Begins other.mode other.accessor other.fork

def Access.accepted : Access ο α → Bool
  | .refresh objects start stop => start ≤ stop ∧ stop ≤ objects.length
  | .read _ _ => false

structure Stored (mode : Mode) (a : Accessor ο α) (refreshes : Nat) (b : Buffer ο α) : Prop where
  accessor_eq : b.accessor = a
  mode_eq : b.mode = mode
  ordered : b.start ≤ b.stop
  fits : b.staging.store.Fits b.size
  turned : b.staging.store.Turned refreshes

namespace Stored
variable {mode : Mode} {a : Accessor ο α} {refreshes : Nat}

theorem initial (positive : 0 < a.components) : Stored mode a 0 (.initial name mode a positive) := by
  refine ⟨rfl, Staging.initial_mode mode, Nat.le_refl 0, ?_, ?_⟩
  · show (Staging.initial mode).store.Fits (a.components * 0)
    cases mode <;> simp [Staging.initial, Staging.store, Store.Fits]
  · show (Staging.initial mode).store.Turned 0
    cases mode <;> trivial

theorem begun {b : Buffer ο α} (begun : b.Begins mode a) : Stored mode a 0 b := by
  cases begun with
  | made made =>
    unfold Buffer.new? at made
    split at made
    · rename_i positive
      cases made
      exact initial positive
    · cases made
  | forked other => exact initial other.components_pos

theorem preserves_slot {s : Session ο α} (stored : Stored mode a refreshes s.buffer) (objects : List ο)
    (slot : Nat) :
    Stored mode a refreshes (Session.readSlot (ε := ε) objects slot s).2.buffer := by
  have alike := Session.reads_alike (Session.readSlot_sound (ε := ε) objects slot s)
  refine ⟨(Buffer.made_accessor alike.made).trans stored.accessor_eq,
    (Buffer.made_mode alike.made).trans stored.mode_eq, ?_, ?_, ?_⟩
  · rw [alike.start_eq, alike.stop_eq]
    exact stored.ordered
  · rw [alike.size, Session.readSlot_store]
    exact Store.read_fits stored.fits slot _
  · rw [Session.readSlot_store]
    exact Store.read_turned stored.turned slot _

theorem preserves_passes {s last : Session ο α} (stored : Stored mode a refreshes s.buffer)
    (passes : Session.Passes objects s slots last) : Stored mode a refreshes last.buffer := by
  induction passes with
  | none => exact stored
  | read inside onward ih => exact ih (stored.preserves_slot objects _)

theorem refreshed [Scalar α] {s : Session ο α} (stored : Stored mode a refreshes s.buffer)
    (ordered : start ≤ stop) (within : stop ≤ objects.length)
    (shown : ∀ object ∈ objects.extract start stop, a.Shows object) :
    Stored mode a (refreshes + 1) (Session.refresh objects start stop s).2.buffer := by
  have made := Session.refreshes_keep (Session.refresh_sound objects start stop s)
  obtain ⟨start_eq, stop_eq, store⟩ := Session.refresh_accepted (s := s) ordered within
  have accessor := (Buffer.made_accessor made).trans stored.accessor_eq
  rw [stored.accessor_eq] at store
  obtain ⟨fits, turned, -⟩ := Store.refreshed_fits a stored.fits stored.turned within shown
  refine ⟨accessor, (Buffer.made_mode made).trans stored.mode_eq, ?_, ?_, ?_⟩
  · rw [start_eq, stop_eq]
    exact ordered
  · rw [store, Buffer.size, Buffer.components, Buffer.tupleCount, accessor, start_eq, stop_eq]
    exact fits
  · rw [store]
    exact turned

theorem preserves_access [Scalar α] {s : Session ο α} (stored : Stored mode a refreshes s.buffer)
    (use : Access ο α) (enough : ∀ object ∈ use.objects, a.Shows object) :
    Stored mode a (refreshes + if use.accepted then 1 else 0) (Session.access use s).2.buffer := by
  cases use with
  | refresh objects start stop =>
    by_cases accepted : start ≤ stop ∧ stop ≤ objects.length
    · have part : ∀ object ∈ objects.extract start stop, a.Shows object :=
        fun object member => enough object (List.mem_of_mem_drop (List.mem_of_mem_take member))
      rw [if_pos (by simpa [Access.accepted] using accepted)]
      exact stored.refreshed accepted.1 accepted.2 part
    · have outside : stop < start ∨ objects.length < stop := by omega
      rw [if_neg (by simpa [Access.accepted] using accepted)]
      show Stored mode a refreshes (Session.refresh objects start stop s).2.buffer
      rw [Session.refresh, if_pos outside]
      exact stored
  | read objects pass =>
    show Stored mode a refreshes (Session.viewed objects (Session.pass objects pass) s).2.buffer
    by_cases covered : s.buffer.stop ≤ objects.length
    · obtain ⟨slots, passes⟩ := Session.viewed_passes covered pass
      exact stored.preserves_passes passes
    · obtain ⟨note, aborted⟩ := Session.viewed_short covered (Session.pass objects pass)
      rw [aborted]
      exact stored

theorem preserves_accessAll [Scalar α] {s : Session ο α} (stored : Stored mode a refreshes s.buffer)
    (uses : List (Access ο α)) (enough : ∀ use ∈ uses, ∀ object ∈ use.objects, a.Shows object) :
    Stored mode a (refreshes + uses.countP Access.accepted) (s.accessAll uses).buffer := by
  induction uses generalizing s refreshes with
  | nil => exact stored
  | cons use rest ih =>
    have first := stored.preserves_access use (enough use (by simp))
    have later := ih first fun other member => enough other (List.mem_cons_of_mem _ member)
    rw [List.countP_cons, Nat.add_comm (rest.countP _), ← Nat.add_assoc]
    exact later

end Stored

-- Every index that a read of a slot may go to: into what is stored, into the collection, and into what
-- the accessor shows of the object there.
structure Buffer.InBounds (objects : List ο) (slot : Nat) (b : Buffer ο α) : Prop where
  stored : b.staging.store.Holds slot
  object : b.start + slot / b.components < objects.length
  shown : b.accessor.Shows objects[b.start + slot / b.components]
  component : slot % b.components < b.components

inductive Session.Bounded (objects : List ο) : Session ο α → List Nat → Session ο α → Prop where
  | none : Bounded objects s [] s
  | read (bounds : s.buffer.InBounds objects slot)
      (answered : (readSlot (ε := ProjectionError) objects slot s).1 = .ok value)
      (onward : Bounded objects (readSlot (ε := ProjectionError) objects slot s).2 slots last) :
      Bounded objects s (slot :: slots) last

theorem Session.readSlot_bounded {s : Session ο α} (bounds : s.buffer.InBounds objects slot) :
    ∃ value, (readSlot (ε := ε) objects slot s).1 = .ok value := by
  have length : slot % s.buffer.components < (s.buffer.accessor.read _).length :=
    Nat.lt_of_lt_of_le bounds.component bounds.shown
  have live : s.buffer.live? objects slot = some _ := (Buffer.live_exact s.buffer).mpr
    ⟨_, List.getElem?_eq_getElem bounds.object, bounds.shown, List.getElem?_eq_getElem length⟩
  obtain ⟨value, found⟩ := Store.read_held bounds.stored _
  refine ⟨value, ?_⟩
  rw [readSlot_answer, Buffer.answer_store, live, found]
  rfl

namespace Stored
variable {mode : Mode} {a : Accessor ο α} {refreshes : Nat}

theorem inBounds {b : Buffer ο α} (stored : Stored mode a refreshes b) (covered : b.stop ≤ objects.length)
    (shown : ∀ object ∈ objects.extract b.start b.stop, a.Shows object) (inside : slot < b.size) :
    b.InBounds objects slot := by
  have part : ∀ object ∈ objects.extract b.start b.stop, b.accessor.Shows object :=
    stored.accessor_eq ▸ shown
  obtain ⟨value, live⟩ := Buffer.live_shown covered inside part
  obtain ⟨object, there, enough, -⟩ := (Buffer.live_exact b).mp live
  obtain ⟨place, rfl⟩ := List.getElem?_eq_some_iff.mp there
  exact ⟨Store.fits_holds stored.fits inside, place, enough, Nat.mod_lt _ b.components_pos⟩

theorem bounded {s last : Session ο α} (stored : Stored mode a refreshes s.buffer)
    (covered : s.buffer.stop ≤ objects.length)
    (shown : ∀ object ∈ objects.extract s.buffer.start s.buffer.stop, a.Shows object)
    (passes : Session.Passes objects s slots last) : Session.Bounded objects s slots last := by
  induction passes with
  | none => exact .none
  | read inside onward ih =>
    have bounds := stored.inBounds covered shown inside
    obtain ⟨value, answered⟩ := Session.readSlot_bounded (ε := ProjectionError) bounds
    refine .read bounds answered (ih (stored.preserves_slot objects _) ?_ ?_)
    · rw [(Session.reads_alike (Session.readSlot_sound ..)).stop_eq]
      exact covered
    · rw [(Session.reads_alike (Session.readSlot_sound ..)).start_eq,
        (Session.reads_alike (Session.readSlot_sound ..)).stop_eq]
      exact shown

theorem generation_eq {b : Buffer ο α} (stored : Stored mode a refreshes b) :
    b.generation = if mode = .cache then .nth refreshes else .never := by
  have turned := stored.turned
  rw [← stored.mode_eq, Buffer.generation, Buffer.mode]
  cases staging : b.staging with
  | direct => rfl
  | copied values => rfl
  | cached slots current =>
    rw [staging] at turned
    exact turned

end Stored

structure WellStored [Scalar α] (mode : Mode) (a : Accessor ο α) (refreshes : Nat) (s : Session ο α) :
    Prop where
  accessor_eq : s.buffer.accessor = a
  ordered : s.buffer.start ≤ s.buffer.stop
  size_eq : s.buffer.size = a.components * (s.buffer.stop - s.buffer.start)
  direct : mode = .zeroCopy → s.buffer.staging.store = .none
  copied : mode = .copy → ∃ values, s.buffer.staging.store = .copied values ∧
    values.length = s.buffer.size
  cached : mode = .cache → ∃ values stamps,
    s.buffer.staging.store = .cached values stamps s.buffer.generation ∧
      values.length = s.buffer.size ∧ stamps.length = s.buffer.size ∧
      ∀ stamp ∈ stamps, stamp.index ≤ s.buffer.generation.index
  generation : s.buffer.generation = if mode = .cache then .nth refreshes else .never
  -- The number of a cycle is that of its refresh for as long as there are numbers.
  counted : mode = .cache → refreshes < Nat.pow 2 64 → s.buffer.generation.index = refreshes
  refreshed : ∀ objects start stop, start ≤ stop → stop ≤ objects.length →
    (Session.refresh objects start stop s).2.buffer.staging.store =
      s.buffer.staging.store.refreshed a objects start stop
  renewed : ∀ objects start stop, start ≤ stop → stop ≤ objects.length →
    (∀ object ∈ objects.extract start stop, a.Shows object) →
    ∀ stamp ∈ (Session.refresh objects start stop s).2.buffer.staging.store.stamps,
      stamp ≠ (Session.refresh objects start stop s).2.buffer.generation
  indexed : ∀ objects slot, (Session.readSlot (ε := ProjectionError) objects slot s).1 =
      Outcome.given (s.buffer.staging.store.read slot (s.buffer.live? objects slot)).1 ∧
    (Session.readSlot (ε := ProjectionError) objects slot s).2.buffer.staging.store =
      (s.buffer.staging.store.read slot (s.buffer.live? objects slot)).2
  bounded : ∀ objects, s.buffer.stop ≤ objects.length →
    (∀ object ∈ objects.extract s.buffer.start s.buffer.stop, a.Shows object) →
    (∀ slot < s.buffer.size, s.buffer.InBounds objects slot ∧
      ∃ value, (Session.readSlot (ε := ProjectionError) objects slot s).1 = .ok value) ∧
    ∀ pass, ∃ slots, Session.Bounded objects s slots (Session.viewed objects (Session.pass objects pass) s).2

theorem Stored.wellStored [Scalar α] {mode : Mode} {a : Accessor ο α} {s : Session ο α}
    (stored : Stored mode a refreshes s.buffer) : WellStored mode a refreshes s := by
  have size : s.buffer.size = a.components * (s.buffer.stop - s.buffer.start) := by
    rw [← stored.accessor_eq]
    rfl
  have fits := stored.fits
  have generation := stored.generation_eq
  refine ⟨stored.accessor_eq, stored.ordered, size, ?_, ?_, ?_, generation, ?_, ?_, ?_, ?_, ?_⟩
  · intro direct
    exact Staging.store_direct (stored.mode_eq.trans direct)
  · intro copy
    obtain ⟨values, store⟩ := Staging.store_copied (stored.mode_eq.trans copy)
    rw [store] at fits
    exact ⟨values, store, fits⟩
  · intro cache
    obtain ⟨values, stamps, store⟩ := Staging.store_cached (stored.mode_eq.trans cache)
    rw [store] at fits
    exact ⟨values, stamps, store, fits⟩
  · intro cache counted
    rw [generation, if_pos cache, Generation.nth_index counted]
  · intro objects start stop ordered within
    obtain ⟨-, -, store⟩ := Session.refresh_accepted (s := s) ordered within
    rw [store, stored.accessor_eq]
  · intro objects start stop ordered within shown stamp member
    have after := stored.refreshed ordered within shown
    by_cases cache : mode = .cache
    · obtain ⟨-, -, store⟩ := Session.refresh_accepted (s := s) ordered within
      rw [store, stored.accessor_eq] at member
      obtain ⟨-, -, older⟩ := Store.refreshed_fits a fits stored.turned within shown
      rw [after.generation_eq, if_pos cache]
      intro same
      exact Nat.lt_irrefl _ (same ▸ older stamp member)
    · rw [Staging.store_unstamped fun same => cache (after.mode_eq.symm.trans same)] at member
      cases member
  · intro objects slot
    rw [Session.readSlot_answer, Buffer.answer_store, Session.readSlot_store]
    exact ⟨rfl, rfl⟩
  · intro objects covered shown
    refine ⟨fun slot inside => ?_, fun pass => ?_⟩
    · have bounds := stored.inBounds covered shown inside
      exact ⟨bounds, Session.readSlot_bounded bounds⟩
    · obtain ⟨slots, passes⟩ := Session.viewed_passes covered pass
      exact ⟨slots, stored.bounded covered shown passes⟩

-- After any uses of a projection that was made or forked, over objects that show enough, refused
-- refreshes and reads of every kind included: its range is a range, it stores exactly as much as its mode
-- has to store for that range, and its cycles are those of the accepted refreshes. So nothing that is
-- read in the range over a collection that covers it is read out of bounds.
theorem storage_fits [Scalar α] {mode : Mode} {a : Accessor ο α} {b : Buffer ο α} (begun : b.Begins mode a)
    (uses : List (Access ο α)) (enough : ∀ use ∈ uses, ∀ object ∈ use.objects, a.Shows object) :
    WellStored mode a (uses.countP Access.accepted) (Session.accessAll ⟨b, 0⟩ uses) := by
  have stored := (Stored.begun begun).preserves_accessAll (s := ⟨b, 0⟩) uses enough
  rw [Nat.zero_add] at stored
  exact stored.wellStored

-- Filled for six slots, cut to two and grown to four. The refresh between is refused.
def Access.resized : List (Access (List UInt64) UInt64) :=
  [.refresh [[1, 2], [3, 4], [5, 6]] 0 3, .read [[1, 2], [3, 4], [5, 6]] .list,
    .refresh [[1, 2], [3, 4], [5, 6]] 1 2, .refresh [[1, 2]] 0 2, .refresh [[1, 2], [3, 4], [5, 6]] 1 3,
    .read [[1, 2], [3, 4], [5, 6]] (.value 3)]

theorem storage_fits_resized :
    Buffer.Begins .cache Accessor.rows (.initial "rows" .cache Accessor.rows Nat.zero_lt_two) ∧
    (∀ use ∈ Access.resized, ∀ object ∈ use.objects, Accessor.rows.Shows object) ∧
    ∃ s, s = Session.accessAll ⟨.initial "rows" .cache Accessor.rows Nat.zero_lt_two, 0⟩ Access.resized ∧
      s.buffer.staging.store = .cached [1, 2, 0, 6] [⟨1⟩, ⟨1⟩, ⟨0⟩, ⟨3⟩] ⟨3⟩ ∧
      s.buffer.generation = .nth 3 ∧ s.buffer.InBounds [[1, 2], [3, 4], [5, 6]] 2 := by
  have begun : Buffer.Begins .cache Accessor.rows (.initial "rows" .cache Accessor.rows Nat.zero_lt_two) :=
    .forked (Buffer.initial "rows" .cache Accessor.rows Nat.zero_lt_two)
  have enough : ∀ use ∈ Access.resized, ∀ object ∈ use.objects, Accessor.rows.Shows object := by decide
  have fits := storage_fits begun Access.resized enough
  obtain ⟨inBounds, -⟩ := fits.bounded [[1, 2], [3, 4], [5, 6]] (by decide) (by decide)
  exact ⟨begun, enough, _, rfl, rfl, fits.generation, (inBounds 2 (by decide)).1⟩

end InSitu
