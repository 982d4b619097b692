import InSitu.Proofs.Projection.Held
namespace InSitu

-- A collection that a projection of `objects` may be read over: the objects of its range are the
-- same. The collection may end before them, and then the read is aborted.
def Agree (objects shown : List ο) (start stop : Nat) : Prop :=
  ∀ place object, start ≤ place → place < stop → shown[place]? = some object →
    objects[place]? = some object

theorem Agree.same (objects : List ο) : Agree objects objects start stop :=
  fun _ _ _ _ there => there

theorem Agree.part (agree : Agree objects shown 0 size) (within : stop ≤ size) (start : Nat) :
    Agree objects shown start stop :=
  fun place object _ below there => agree place object (Nat.zero_le _) (by omega) there

namespace Buffer

theorem live_exact (b : Buffer ο α) : b.live? objects slot = some value ↔
    ∃ object, objects[b.start + slot / b.components]? = some object ∧ b.accessor.Shows object ∧
      (b.accessor.read object)[slot % b.components]? = some value := by
  have place : slot % b.components < b.accessor.components := Nat.mod_lt _ b.components_pos
  show (objects[b.start + slot / b.components]?.bind fun object =>
    (b.accessor.tuple? object).bind fun tuple => tuple[slot % b.components]?) = some value ↔ _
  constructor
  · intro live
    obtain ⟨object, there, live⟩ := Option.bind_eq_some_iff.mp live
    obtain ⟨tuple, shown, live⟩ := Option.bind_eq_some_iff.mp live
    by_cases enough : b.accessor.Shows object
    · rw [b.accessor.tuple_shown enough] at shown
      cases shown
      exact ⟨object, there, enough, by simpa [place] using live⟩
    · rw [b.accessor.tuple_missing enough] at shown
      cases shown
  · intro live
    obtain ⟨object, there, enough, live⟩ := live
    simp [there, b.accessor.tuple_shown enough, place, live]

structure Alike (b other : Buffer ο α) : Prop where
  made : b.fork = other.fork
  start_eq : b.start = other.start
  stop_eq : b.stop = other.stop

namespace Alike

variable {b other : Buffer ο α}

theorem refl : Alike b b := ⟨rfl, rfl, rfl⟩

theorem trans (before : Alike last other) (after : Alike other b) : Alike last b :=
  ⟨before.made.trans after.made, before.start_eq.trans after.start_eq,
    before.stop_eq.trans after.stop_eq⟩

theorem size (alike : Alike b other) : b.size = other.size := by
  simp [Buffer.size, Buffer.components, tupleCount, made_accessor alike.made, alike.start_eq,
    alike.stop_eq]

theorem live (alike : Alike b other) : b.live? objects slot = other.live? objects slot := by
  simp only [live?, Buffer.components, made_accessor alike.made, alike.start_eq]

theorem tupleCount (alike : Alike b other) : b.tupleCount = other.tupleCount := by
  simp only [Buffer.tupleCount, alike.start_eq, alike.stop_eq]

end Alike

structure Mirrors (objects : List ο) (b : Buffer ο α) : Prop where
  within : b.stop ≤ objects.length
  sized : b.staging.Sized b.size
  dated : b.staging.Dated
  held : ∀ slot < b.size, ∀ value, b.staging.held? slot = some value →
    b.live? objects slot = some value
  -- A copy has no second chance, so it holds everything.
  full : b.mode = .copy → ∀ slot < b.size, ∃ value, b.staging.held? slot = some value

theorem slot_within {b : Buffer ο α} (inside : slot < b.size) :
    b.start + slot / b.components < b.stop := by
  have tuple : slot / b.components < b.stop - b.start := Nat.div_lt_of_lt_mul inside
  exact Nat.add_lt_of_lt_sub' tuple

theorem live_agree {b : Buffer ο α} (agree : Agree objects shown b.start b.stop) (inside : slot < b.size)
    (seen : b.live? shown slot = some value) : b.live? objects slot = some value := by
  obtain ⟨object, there, enough, component⟩ := (live_exact b).mp seen
  have same := agree _ object (Nat.le_add_right ..) (slot_within inside) there
  exact (live_exact b).mpr ⟨object, same, enough, component⟩

theorem live_shown {b : Buffer ο α} (within : b.stop ≤ objects.length) (inside : slot < b.size)
    (shown : ∀ object ∈ objects.extract b.start b.stop, b.accessor.Shows object) :
    ∃ value, b.live? objects slot = some value := by
  have place : slot % b.components < b.accessor.components := Nat.mod_lt _ b.components_pos
  have below : b.start + slot / b.components < objects.length :=
    Nat.lt_of_lt_of_le (slot_within inside) within
  have tuple : slot / b.components < b.stop - b.start := Nat.div_lt_of_lt_mul inside
  have member : objects[b.start + slot / b.components] ∈ objects.extract b.start b.stop := by
    apply List.mem_of_getElem? (i := slot / b.components)
    simp [tuple, below]
  have enough := shown _ member
  exact ⟨_, (live_exact b).mpr ⟨_, List.getElem?_eq_getElem below, enough,
    List.getElem?_eq_getElem (Nat.lt_of_lt_of_le place enough)⟩⟩

theorem Mirrors.refreshed {start stop : Nat} {before b : Buffer ο α}
    (refreshed : Session.Refreshed objects start stop before b) : b.Mirrors objects := by
  have within : b.stop ≤ objects.length := refreshed.stop_eq ▸ refreshed.within
  -- A value that is held is a copy of a component, and the object behind it shows enough.
  have copied : b.mode = .copy → ∀ slot < b.size, b.staging.held? slot = b.live? objects slot := by
    intro copy slot inside
    have shown := refreshed.copied copy
    rw [← refreshed.start_eq, ← refreshed.stop_eq] at shown
    obtain ⟨value, live⟩ := live_shown within inside shown
    obtain ⟨object, there, enough, component⟩ := (live_exact b).mp live
    rw [refreshed.held slot inside, if_pos copy, live, ← refreshed.start_eq, Accessor.component?]
    exact Option.bind_eq_some_iff.mpr ⟨object, there, component⟩
  refine ⟨within, refreshed.sized, refreshed.dated, ?_, ?_⟩
  · intro slot inside value held
    by_cases copy : b.mode = .copy
    · exact (copied copy slot inside).symm.trans held
    · rw [refreshed.held slot inside, if_neg copy] at held
      cases held
  · intro copy slot inside
    have shown := refreshed.copied copy
    rw [← refreshed.start_eq, ← refreshed.stop_eq] at shown
    obtain ⟨value, live⟩ := live_shown within inside shown
    exact ⟨value, (copied copy slot inside).trans live⟩

theorem Mirrors.onward {b later : Buffer ο α} (mirrors : b.Mirrors objects) (alike : later.Alike b)
    (sized : later.staging.Sized b.size) (dated : later.staging.Dated)
    (held : ∀ slot < b.size, ∀ value, later.staging.held? slot = some value →
      b.live? objects slot = some value)
    (copy : later.mode = .copy → later.staging = b.staging) : later.Mirrors objects := by
  have size := alike.size
  refine ⟨alike.stop_eq ▸ mirrors.within, size ▸ sized, dated, ?_, ?_⟩
  · intro slot inside value found
    exact alike.live.trans (held slot (size ▸ inside) value found)
  · intro copied slot inside
    rw [copy copied]
    exact mirrors.full ((made_mode alike.made).symm.trans copied) slot (size ▸ inside)

end Buffer

namespace Session

theorem reads_alike (read : ReadsSlot objects slot s result) : result.2.buffer.Alike s.buffer := by
  obtain ⟨made, start, stop⟩ := reads_keep read
  exact ⟨made, start, stop⟩

theorem reads_mirrors {s : Session ο α} (mirrors : s.buffer.Mirrors objects)
    (agree : Agree objects shown s.buffer.start s.buffer.stop) (inside : slot < s.buffer.size)
    (read : ReadsSlot (ε := ε) shown slot s result) :
    result.2.buffer.Mirrors objects ∧
      ∀ value, result.1 = .ok value → s.buffer.live? objects slot = some value := by
  have alike := reads_alike read
  have sized := reads_sized read mirrors.sized
  have dated := reads_dated read mirrors.dated
  cases read with
  | held hits found =>
    refine ⟨mirrors.onward alike sized dated mirrors.held fun _ => rfl, ?_⟩
    intro value answered
    cases answered
    exact mirrors.held slot inside _ found
  | fetched missing lazily seen =>
    rename_i fetched
    have live : s.buffer.live? objects slot = some fetched := Buffer.live_agree agree inside seen
    constructor
    · refine mirrors.onward alike sized dated ?_ ?_
      · intro other below value found
        have filled : (s.buffer.staging.filled slot fetched).held? other = some value := found
        cases mode : s.buffer.mode with
        | copy => exact absurd mode lazily
        | zeroCopy =>
          rw [Staging.filled_direct mode] at filled
          exact mirrors.held other below value filled
        | cache =>
          rw [Staging.filled_held mode mirrors.sized inside] at filled
          split at filled
          · rename_i same
            cases filled
            exact same ▸ live
          · exact mirrors.held other below value filled
      · intro copy
        exact absurd ((Buffer.made_mode alike.made).symm.trans copy) lazily
    · intro value answered
      cases answered
      exact live
  | unseen missing unseen =>
    refine ⟨mirrors.onward alike sized dated mirrors.held fun _ => rfl, ?_⟩
    intro value answered
    cases answered
  | absent missing beyond =>
    refine ⟨mirrors, ?_⟩
    intro value answered
    cases answered

theorem reads_answer {s : Session ο α} (mirrors : s.buffer.Mirrors objects)
    (inside : slot < s.buffer.size) (live : s.buffer.live? objects slot = some value)
    (read : ReadsSlot (ε := ε) objects slot s result) : result.1 = .ok value := by
  cases read with
  | held hits found =>
    rw [mirrors.held slot inside _ found] at live
    cases live
    rfl
  | fetched missing lazily seen =>
    rw [seen] at live
    cases live
    rfl
  | unseen missing unseen => exact absurd (live.symm.trans unseen) (by simp)
  | absent missing beyond =>
    rcases beyond with copy | beyond
    · obtain ⟨value, held⟩ := mirrors.full copy slot inside
      exact absurd (held.symm.trans missing) (by simp)
    · exact absurd (beyond _ mirrors.sized) (Nat.not_le.mpr inside)

theorem readSlots_keeps (shown : List ο) (slots : List Nat) (s : Session ο α) :
    (readSlots (ε := ε) shown slots s).2.buffer.Alike s.buffer ∧
      (s.buffer.staging.Dated → (readSlots (ε := ε) shown slots s).2.buffer.staging.Dated) := by
  induction slots generalizing s with
  | nil => exact ⟨.refl, id⟩
  | cons slot rest ih =>
    have sound := readSlot_sound (ε := ε) shown slot s
    have alike := reads_alike sound
    have dated := reads_dated sound
    simp only [readSlots, Act.bind_exact]
    rcases read : readSlot (ε := ε) shown slot s with ⟨failure | value, reached⟩
    · rw [read] at alike dated
      exact ⟨alike, dated⟩
    · rw [read] at alike dated
      obtain ⟨further, later⟩ := ih reached
      dsimp only
      rcases more : readSlots (ε := ε) shown rest reached with ⟨failure | values, last⟩ <;>
        rw [more] at further later <;> exact ⟨further.trans alike, later ∘ dated⟩

theorem readSlots_length {s : Session ο α}
    (read : (readSlots (ε := ε) shown slots s).1 = .ok values) : values.length = slots.length := by
  induction slots generalizing s values with
  | nil =>
    cases read
    rfl
  | cons slot rest ih =>
    simp only [readSlots, Act.bind_exact] at read
    rcases first : readSlot (ε := ε) shown slot s with ⟨failure | value, reached⟩
    · rw [first] at read
      cases read
    · simp only [first] at read
      rcases later : readSlots (ε := ε) shown rest reached with ⟨failure | more, last⟩
      · rw [later] at read
        cases read
      · rw [later] at read
        cases read
        rw [List.length_cons, List.length_cons, ih (congrArg Prod.fst later)]

theorem readSlots_mirrors {s : Session ο α} (mirrors : s.buffer.Mirrors objects)
    (agree : Agree objects shown s.buffer.start s.buffer.stop) (inside : ∀ slot ∈ slots, slot < s.buffer.size) :
    (readSlots (ε := ε) shown slots s).2.buffer.Mirrors objects ∧
      ∀ values, (readSlots (ε := ε) shown slots s).1 = .ok values →
        slots.map (s.buffer.live? objects) = values.map some := by
  induction slots generalizing s with
  | nil =>
    refine ⟨mirrors, ?_⟩
    intro values answered
    cases answered
    rfl
  | cons slot rest ih =>
    have sound := readSlot_sound (ε := ε) shown slot s
    have alike := reads_alike sound
    obtain ⟨kept, seen⟩ := reads_mirrors mirrors agree (inside slot (by simp)) sound
    simp only [readSlots, Act.bind_exact]
    rcases read : readSlot (ε := ε) shown slot s with ⟨failure | value, reached⟩
    · rw [read] at kept
      refine ⟨kept, ?_⟩
      intro values answered
      cases answered
    · rw [read] at kept alike seen
      have below : ∀ other ∈ rest, other < reached.buffer.size := fun other member =>
        alike.size ▸ inside other (List.mem_cons_of_mem _ member)
      have agreed := alike.start_eq ▸ alike.stop_eq ▸ agree
      obtain ⟨onward, others⟩ := ih kept agreed below
      dsimp only
      rcases later : readSlots (ε := ε) shown rest reached with ⟨failure | more, last⟩
      · rw [later] at onward
        refine ⟨onward, ?_⟩
        intro values answered
        cases answered
      · rw [later] at onward others
        refine ⟨onward, ?_⟩
        intro values answered
        cases answered
        have first := seen value rfl
        have same : rest.map (s.buffer.live? objects) = more.map some := by
          rw [← others more rfl]
          exact List.map_congr_left fun other _ => alike.live.symm
        rw [List.map_cons, List.map_cons, first, same]

theorem readSlots_answer {s : Session ο α} (mirrors : s.buffer.Mirrors objects)
    (inside : ∀ slot ∈ slots, slot < s.buffer.size)
    (live : ∀ slot ∈ slots, ∃ value, s.buffer.live? objects slot = some value) :
    ∃ values, (readSlots (ε := ε) objects slots s).1 = .ok values := by
  induction slots generalizing s with
  | nil => exact ⟨[], rfl⟩
  | cons slot rest ih =>
    have sound := readSlot_sound (ε := ε) objects slot s
    have alike := reads_alike sound
    have kept := (reads_mirrors mirrors (.same objects) (inside slot (by simp)) sound).1
    obtain ⟨value, there⟩ := live slot (by simp)
    have answered := reads_answer mirrors (inside slot (by simp)) there sound
    rcases read : readSlot (ε := ε) objects slot s with ⟨failure | value, reached⟩
    · rw [read] at answered
      cases answered
    · rw [read] at kept alike
      have below : ∀ other ∈ rest, other < reached.buffer.size := fun other member =>
        alike.size ▸ inside other (List.mem_cons_of_mem _ member)
      have shown : ∀ other ∈ rest, ∃ value, reached.buffer.live? objects other = some value := by
        intro other member
        rw [alike.live]
        exact live other (List.mem_cons_of_mem _ member)
      obtain ⟨others, later⟩ := ih kept below shown
      rcases more : readSlots (ε := ε) objects rest reached with ⟨failure | values, last⟩
      · rw [more] at later
        cases later
      · refine ⟨value :: values, ?_⟩
        simp only [readSlots, Act.bind_exact, read, more]
        rfl

end Session

namespace Accessor

def scalars (a : Accessor ο α) (objects : List ο) : List α :=
  objects.flatMap fun object => (a.read object).take a.components

theorem scalars_length (a : Accessor ο α) (shown : ∀ object ∈ objects, a.Shows object) :
    (a.scalars objects).length = a.components * objects.length := by
  induction objects with
  | nil => rfl
  | cons object rest ih =>
    have first : ((a.read object).take a.components).length = a.components :=
      (List.length_take ..).trans (Nat.min_eq_left (shown object (by simp)))
    have others := ih fun other member => shown other (List.mem_cons_of_mem _ member)
    unfold scalars at others ⊢
    rw [List.flatMap_cons, List.length_append, first, others, List.length_cons, Nat.mul_succ,
      Nat.add_comm]

end Accessor

namespace Buffer

theorem live_objects {b : Buffer ο α}
    (live : ∀ slot < b.size, ∃ value, b.live? objects slot = some value) :
    ∀ object ∈ objects.extract b.start b.stop, b.accessor.Shows object := by
  intro object member
  obtain ⟨place, there⟩ := List.mem_iff_getElem?.mp member
  rw [List.extract_eq_take_drop, List.getElem?_take] at there
  split at there
  · rename_i inside
    rw [List.getElem?_drop] at there
    have positive : 0 < b.components := b.components_pos
    have first : b.components * place < b.size := Nat.mul_lt_mul_of_pos_left inside positive
    obtain ⟨value, seen⟩ := live _ first
    obtain ⟨other, found, enough, -⟩ := (live_exact b).mp seen
    rw [Nat.mul_div_cancel_left place positive, there] at found
    cases found
    exact enough
  · cases there

theorem live_scalars {b : Buffer ο α} (within : b.stop ≤ objects.length)
    (live : (List.range b.size).map (b.live? objects) = values.map some) :
    values = b.accessor.scalars (objects.extract b.start b.stop) := by
  have each : ∀ slot < b.size, ∃ value, values[slot]? = some value ∧
      b.live? objects slot = some value := by
    intro slot inside
    have place := congrArg (·[slot]?) live
    simp only [List.getElem?_map, List.getElem?_range inside, Option.map_some] at place
    obtain ⟨value, found, same⟩ := Option.map_eq_some_iff.mp place.symm
    exact ⟨value, found, same.symm⟩
  have shown := live_objects fun slot inside => (each slot inside).imp fun _ both => both.2
  have length : values.length = b.size := by
    have lengths := congrArg List.length live
    simpa using lengths.symm
  have extent : (b.accessor.scalars (objects.extract b.start b.stop)).length = b.size := by
    rw [Accessor.scalars_length _ shown]
    simp only [size, tupleCount, List.extract_eq_take_drop, List.length_take, List.length_drop]
    rw [Nat.min_eq_left (Nat.sub_le_sub_right within _)]
    rfl
  apply List.ext_getElem?
  intro slot
  by_cases inside : slot < b.size
  · obtain ⟨value, found, seen⟩ := each slot inside
    obtain ⟨object, there, -, component⟩ := (live_exact b).mp seen
    have copied := Accessor.copied_slot b.accessor b.components_pos shown inside
    rw [Accessor.copyAll_complete _ shown] at copied
    rw [found]
    refine (copied.trans ?_).symm
    exact Option.bind_eq_some_iff.mpr ⟨object, there, component⟩
  · rw [List.getElem?_eq_none (by omega), List.getElem?_eq_none (by omega)]

end Buffer

namespace Session

theorem toList_exact (objects : List ο) (s : Session ο α) :
    toList (ε := ε) objects s = readSlots objects (List.range s.buffer.size) s := rfl

theorem toList_mirrors {s : Session ο α} (mirrors : s.buffer.Mirrors objects)
    (agree : Agree objects shown s.buffer.start s.buffer.stop) :
    (toList (ε := ε) shown s).2.buffer.Mirrors objects ∧
      ∀ values, (toList (ε := ε) shown s).1 = .ok values →
        values = s.buffer.accessor.scalars (objects.extract s.buffer.start s.buffer.stop) := by
  have inside : ∀ slot ∈ List.range s.buffer.size, slot < s.buffer.size :=
    fun slot member => List.mem_range.mp member
  rw [toList_exact]
  obtain ⟨kept, seen⟩ := readSlots_mirrors (ε := ε) mirrors agree inside
  exact ⟨kept, fun values answered => Buffer.live_scalars mirrors.within (seen values answered)⟩

theorem toList_answer {s : Session ο α} (mirrors : s.buffer.Mirrors objects)
    (enough : ∀ object ∈ objects.extract s.buffer.start s.buffer.stop,
      s.buffer.accessor.Shows object) :
    ∃ values, (toList (ε := ε) objects s).1 = .ok values := by
  rw [toList_exact]
  refine readSlots_answer mirrors (fun slot member => List.mem_range.mp member) ?_
  intro slot member
  exact Buffer.live_shown mirrors.within (List.mem_range.mp member) enough

end Session
end InSitu
