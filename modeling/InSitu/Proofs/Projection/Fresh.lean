import InSitu.Proofs.Projection.Pass
namespace InSitu

inductive Access (ο α : Type) where
  | refresh (objects : List ο) (start stop : Nat)
  | read (objects : List ο) (pass : Pass α)

-- The current cycle: the range of the last refresh that was accepted, whether it came to its end or
-- not, the collection that it was handed, and those that were handed over since.
structure Span (ο : Type) where
  start : Nat
  stop : Nat
  bound : List ο
  since : List (List ο)

namespace Span

def initial : Span ο := ⟨0, 0, [], []⟩

def moments (span : Span ο) : List (List ο) := span.bound :: span.since

def later (span : Span ο) (objects : List ο) : Span ο :=
  {span with since := span.since ++ [objects]}

theorem now (span : Span ο) (objects : List ο) : objects ∈ (span.later objects).moments :=
  List.mem_cons_of_mem _ (List.mem_append_right _ (List.mem_singleton_self _))

def after (span : Span ο) : Access ο α → Span ο
  | .refresh objects start stop =>
    if start ≤ stop ∧ stop ≤ objects.length then ⟨start, stop, objects, []⟩ else span
  | .read objects _ => span.later objects

def ofAccesses (accesses : List (Access ο α)) : Span ο := accesses.foldl after initial

def Shown (a : Accessor ο α) (span : Span ο) (slot : Nat) (value : α) : Prop :=
  slot < a.components * (span.stop - span.start) ∧
    ∃ shown ∈ span.moments, a.component? shown span.start slot = some value

end Span

namespace Session

def viewed (objects : List ο) (x : Act (Session ο α) ProjectionError β) :
    Act (Session ο α) ProjectionError β := do
  view objects
  x

def access [Scalar α] : Access ο α → Act (Session ο α) ProjectionError Unit
  | .refresh objects start stop => refresh objects start stop
  | .read objects pass => viewed objects (Session.pass objects pass)

def accessAll [Scalar α] (s : Session ο α) (accesses : List (Access ο α)) : Session ο α :=
  accesses.foldl (fun s use => (access use s).2) s

theorem viewed_covered {s : Session ο α} (covered : s.buffer.stop ≤ objects.length)
    (x : Act (Session ο α) ProjectionError β) : viewed objects x s = x s := by
  simp [viewed, Act.bind_exact, view, Buffer.covers, Nat.not_lt.mpr covered]

theorem viewed_short {s : Session ο α} (short : ¬ s.buffer.stop ≤ objects.length)
    (x : Act (Session ο α) ProjectionError β) :
    ∃ note, viewed objects x s = (.error (.abort note), s) := by
  simp only [viewed, Act.bind_exact, view, Buffer.covers, if_pos (Nat.not_le.mp short)]
  exact ⟨_, rfl⟩

theorem viewed_answered {s : Session ο α} {x : Act (Session ο α) ProjectionError β}
    (answered : (viewed objects x s).1 = .ok b) : (x s).1 = .ok b := by
  by_cases covered : s.buffer.stop ≤ objects.length
  · rwa [viewed_covered covered] at answered
  · obtain ⟨note, aborted⟩ := viewed_short covered x
    rw [aborted] at answered
    cases answered

theorem value_aborts {s : Session ο α} {failure : Failure ProjectionError}
    (failed : (viewed objects (valueAt objects slot) s).1 = .error failure) :
    ∃ note, failure = .abort note := by
  by_cases covered : s.buffer.stop ≤ objects.length
  · rw [viewed_covered covered] at failed
    simp only [valueAt, Act.bind_exact, Act.get_exact, Act.ite_exact] at failed
    split at failed
    · have sound := readSlot_sound (ε := ProjectionError) objects slot s
      generalize readSlot (ε := ProjectionError) objects slot s = result at sound failed
      cases sound <;> cases failed <;> exact ⟨none, rfl⟩
    · cases failed
      exact ⟨_, rfl⟩
  · obtain ⟨note, aborted⟩ := viewed_short covered (valueAt objects slot)
    rw [aborted] at failed
    cases failed
    exact ⟨note, rfl⟩

theorem inside_alike {s : Session ο α} (inside : slot < s.buffer.size) :
    viewed objects (tryValueAt objects slot) s = viewed objects (valueAt objects slot) s ∧
      (viewed objects (get? objects slot) s).1 =
        (viewed objects (valueAt (ε := ProjectionError) objects slot) s).1.map some := by
  by_cases covered : s.buffer.stop ≤ objects.length
  · simp only [viewed_covered covered]
    rw [tryValueAt_inside inside, get_inside inside, valueAt_inside inside]
    exact ⟨rfl, rfl⟩
  · simp only [viewed, Act.bind_exact, view, Buffer.covers, if_pos (Nat.not_le.mp covered)]
    exact ⟨trivial, rfl⟩

end Session

namespace Accessor

theorem copyAll_component (a : Accessor ο α) (positive : 0 < a.components)
    (held : (a.copyAll objects).values[slot]? = some value) :
    a.component? objects 0 slot = some value := by
  induction objects generalizing slot with
  | nil => simp [copyAll] at held
  | cons object rest ih =>
    by_cases shown : a.Shows object
    · have length : ((a.read object).take a.components).length = a.components :=
        (List.length_take ..).trans (Nat.min_eq_left shown)
      simp only [copyAll, tuple_shown a shown] at held
      by_cases first : slot < a.components
      · rw [List.getElem?_append_left (by omega), List.getElem?_take, if_pos first] at held
        simpa [component?, Nat.div_eq_of_lt first, Nat.mod_eq_of_lt first] using held
      · have split : slot = (slot - a.components) + a.components := by omega
        rw [List.getElem?_append_right (by omega), length] at held
        have later := ih held
        rw [split, component?, Nat.add_div_right _ positive, Nat.add_mod_right]
        simpa [component?] using later
    · simp [copyAll, tuple_missing a shown] at held

theorem copied_component (a : Accessor ο α) (positive : 0 < a.components) (count : Nat)
    (held : (a.copyAll ((objects.drop start).take count)).values[slot]? = some value) :
    a.component? objects start slot = some value := by
  have component := a.copyAll_component positive held
  obtain ⟨object, there, shown⟩ := Option.bind_eq_some_iff.mp component
  rw [Nat.zero_add, List.getElem?_take] at there
  split at there
  · rw [List.getElem?_drop] at there
    exact Option.bind_eq_some_iff.mpr ⟨object, there, shown⟩
  · cases there

end Accessor

structure Fresh (mode : Mode) (a : Accessor ο α) (span : Span ο) (b : Buffer ο α) : Prop where
  accessor_eq : b.accessor = a
  mode_eq : b.mode = mode
  start_eq : b.start = span.start
  stop_eq : b.stop = span.stop
  within : span.stop ≤ span.bound.length
  sized : b.staging.Sized b.size
  dated : b.staging.Dated
  held : ∀ slot < b.size, ∀ value, b.staging.held? slot = some value →
    ∃ shown ∈ span.moments, a.component? shown span.start slot = some value
  -- Only a copy of a range in which an object shows too little can have gaps.
  full : mode = .copy → (∀ object ∈ span.bound.extract span.start span.stop, a.Shows object) →
    ∀ slot < b.size, ∃ value, b.staging.held? slot = some value

namespace Fresh
variable {mode : Mode} {a : Accessor ο α} {span : Span ο}

theorem initial (positive : 0 < a.components) :
    Fresh mode a Span.initial (Buffer.initial name mode a positive) := by
  have empty : (Buffer.initial name mode a positive).size = 0 := Nat.mul_zero _
  refine ⟨rfl, Staging.initial_mode mode, rfl, rfl, Nat.le_refl _, ?_, Staging.initial_dated mode,
    ?_, ?_⟩
  · cases mode <;> simp [Buffer.initial, Staging.initial, Staging.Sized, Buffer.size, Buffer.tupleCount]
  · intro slot inside
    rw [empty] at inside
    cases inside
  · intro _ _ slot inside
    rw [empty] at inside
    cases inside

theorem size_eq {b : Buffer ο α} (fresh : Fresh mode a span b) :
    b.size = a.components * (span.stop - span.start) := by
  simp [Buffer.size, Buffer.components, Buffer.tupleCount, fresh.accessor_eq, fresh.start_eq,
    fresh.stop_eq]

theorem later {b : Buffer ο α} (fresh : Fresh mode a span b) (objects : List ο) :
    Fresh mode a (span.later objects) b := by
  refine ⟨fresh.accessor_eq, fresh.mode_eq, fresh.start_eq, fresh.stop_eq, fresh.within, fresh.sized,
    fresh.dated, ?_, fresh.full⟩
  intro slot inside value held
  obtain ⟨shown, member, component⟩ := fresh.held slot inside value held
  exact ⟨shown, List.mem_append_left [objects] member, component⟩

theorem refreshed {before after : Buffer ο α} (fresh : Fresh mode a span before)
    (refreshed : Session.Refreshed objects start stop before after) :
    Fresh mode a ⟨start, stop, objects, []⟩ after := by
  have accessor : after.accessor = a := (Buffer.made_accessor refreshed.made).trans fresh.accessor_eq
  have sameMode : after.mode = mode := (Buffer.made_mode refreshed.made).trans fresh.mode_eq
  have size : after.size = a.components * (stop - start) := by
    simp [Buffer.size, Buffer.components, Buffer.tupleCount, accessor, refreshed.start_eq,
      refreshed.stop_eq]
  refine ⟨accessor, sameMode, refreshed.start_eq, refreshed.stop_eq, refreshed.within,
    refreshed.sized, refreshed.dated, ?_, ?_⟩
  · intro slot inside value held
    rw [refreshed.held slot inside, accessor] at held
    split at held
    · exact ⟨objects, List.mem_cons_self, held⟩
    · cases held
  · intro copy shown slot inside
    rw [refreshed.held slot inside, if_pos (sameMode.trans copy), accessor]
    have positive : 0 < a.components := accessor ▸ after.components_pos
    exact a.component_shown positive shown (size ▸ inside) refreshed.within

theorem preserves_refresh [Scalar α] {s : Session ο α} (fresh : Fresh mode a span s.buffer)
    (objects : List ο) (start stop : Nat) :
    Fresh mode a (span.after (.refresh objects start stop : Access ο α))
      (Session.refresh objects start stop s).2.buffer := by
  have sound := Session.refresh_sound objects start stop s
  have made := Session.refreshes_keep sound
  have ended : (Session.refresh objects start stop s).1 = .ok () → _ :=
    Session.refresh_answered fresh.dated
  generalize Session.refresh objects start stop s = result at sound made ended ⊢
  by_cases accepted : start ≤ stop ∧ stop ≤ objects.length
  · simp only [Span.after, if_pos accepted]
    cases sound with
    | refused outside => omega
    | bound ordered within staging => exact fresh.refreshed (ended rfl)
    | copied ordered within staging copy => exact fresh.refreshed (ended rfl)
    | renewed ordered within staging => exact fresh.refreshed (ended rfl)
    | interrupted ordered within staging copy =>
      -- The copy ended at an object that shows too little. What it holds is right; the rest is absent.
      rename_i old values counted
      have positive : 0 < a.components := fresh.accessor_eq ▸ s.buffer.components_pos
      have sameMode : Mode.copy = mode := (Buffer.made_mode made).trans fresh.mode_eq
      refine ⟨fresh.accessor_eq, sameMode, rfl, rfl, within, trivial, trivial, ?_, ?_⟩
      · intro slot inside value held
        refine ⟨objects, List.mem_cons_self, a.copied_component positive (stop - start) ?_⟩
        rw [← fresh.accessor_eq, copy]
        exact held
      · intro _ shown
        rw [List.extract_eq_take_drop, ← fresh.accessor_eq] at shown
        rw [Accessor.copyAll_complete _ shown] at copy
        cases copy
  · simp only [Span.after, if_neg accepted]
    cases sound with
    | refused outside => exact fresh
    | bound ordered within staging => exact absurd ⟨ordered, within⟩ accepted
    | copied ordered within staging copy => exact absurd ⟨ordered, within⟩ accepted
    | interrupted ordered within staging copy => exact absurd ⟨ordered, within⟩ accepted
    | renewed ordered within staging => exact absurd ⟨ordered, within⟩ accepted

theorem live_shown {b : Buffer ο α} (fresh : Fresh mode a span b) (shown : objects ∈ span.moments)
    (live : b.live? objects slot = some value) :
    ∃ shown ∈ span.moments, a.component? shown span.start slot = some value := by
  obtain ⟨object, there, -, component⟩ := (Buffer.live_exact b).mp live
  rw [fresh.start_eq, Buffer.components, fresh.accessor_eq] at there
  rw [Buffer.components, fresh.accessor_eq] at component
  exact ⟨objects, shown, Option.bind_eq_some_iff.mpr ⟨object, there, component⟩⟩

theorem onward {s : Session ο α} (fresh : Fresh mode a span s.buffer)
    (read : Session.ReadsSlot (ε := ε) objects slot s result)
    (held : ∀ other < s.buffer.size, ∀ value, result.2.buffer.staging.held? other = some value →
      ∃ shown ∈ span.moments, a.component? shown span.start other = some value)
    (kept : mode = .copy → result.2.buffer.staging = s.buffer.staging) :
    Fresh mode a span result.2.buffer := by
  have alike := Session.reads_alike read
  refine ⟨(Buffer.made_accessor alike.made).trans fresh.accessor_eq,
    (Buffer.made_mode alike.made).trans fresh.mode_eq, alike.start_eq.trans fresh.start_eq,
    alike.stop_eq.trans fresh.stop_eq, fresh.within, ?_, Session.reads_dated read fresh.dated, ?_, ?_⟩
  · rw [alike.size]
    exact Session.reads_sized read fresh.sized
  · rw [alike.size]
    exact held
  · intro copy shown
    rw [alike.size, kept copy]
    exact fresh.full copy shown

theorem preserves_read {s : Session ο α} (fresh : Fresh mode a span s.buffer)
    (shown : objects ∈ span.moments) (inside : slot < s.buffer.size)
    (read : Session.ReadsSlot (ε := ε) objects slot s result) :
    Fresh mode a span result.2.buffer ∧
      ((∃ value, result.1 = .ok value ∧ span.Shown a slot value) ∨ result.1 = .error (.abort none)) := by
  have place : slot < a.components * (span.stop - span.start) := fresh.size_eq ▸ inside
  have onward := fresh.onward read
  cases read with
  | held hits found =>
    exact ⟨onward fresh.held fun _ => rfl,
      .inl ⟨_, rfl, place, fresh.held slot inside _ found⟩⟩
  | fetched missing lazily seen =>
    rename_i fetched
    have component := fresh.live_shown shown seen
    refine ⟨onward ?_ ?_, .inl ⟨_, rfl, place, component⟩⟩
    · intro other below value held
      have filled : (s.buffer.staging.filled slot fetched).held? other = some value := held
      cases same : s.buffer.mode with
      | copy => exact absurd same lazily
      | zeroCopy =>
        rw [Staging.filled_direct same] at filled
        exact fresh.held other below value filled
      | cache =>
        rw [Staging.filled_held same fresh.sized inside] at filled
        split at filled
        · rename_i equal
          cases filled
          exact equal ▸ component
        · exact fresh.held other below value filled
    · intro copy
      exact absurd (fresh.mode_eq.trans copy) lazily
  | unseen missing unseen => exact ⟨onward fresh.held fun _ => rfl, .inr rfl⟩
  | absent missing beyond => exact ⟨fresh, .inr rfl⟩

theorem preserves_passes {s last : Session ο α} (fresh : Fresh mode a span s.buffer)
    (shown : objects ∈ span.moments) (passes : Session.Passes objects s slots last) :
    Fresh mode a span last.buffer := by
  induction passes with
  | none => exact fresh
  | read inside onward ih =>
    exact ih (fresh.preserves_read shown inside (Session.readSlot_sound ..)).1

theorem preserves_access [Scalar α] {s : Session ο α} (fresh : Fresh mode a span s.buffer)
    (use : Access ο α) : Fresh mode a (span.after use) (Session.access use s).2.buffer := by
  cases use with
  | refresh objects start stop => exact fresh.preserves_refresh objects start stop
  | read objects pass =>
    have later := fresh.later objects
    by_cases covered : s.buffer.stop ≤ objects.length
    · rw [Session.access, Session.viewed_covered covered]
      obtain ⟨slots, passes⟩ := Session.pass_slotwise pass s rfl
      exact later.preserves_passes (span.now objects) passes
    · obtain ⟨note, aborted⟩ := Session.viewed_short covered (Session.pass objects pass)
      rw [Session.access, aborted]
      exact later

theorem preserves_accessAll [Scalar α] {s : Session ο α} (fresh : Fresh mode a span s.buffer)
    (accesses : List (Access ο α)) :
    Fresh mode a (accesses.foldl Span.after span) (s.accessAll accesses).buffer := by
  induction accesses generalizing s span with
  | nil => exact fresh
  | cons use rest ih => exact ih (fresh.preserves_access use)

theorem reached [Scalar α] {b : Buffer ο α} (made : Buffer.new? name mode a = .ok b)
    (uses : List (Access ο α)) :
    Fresh mode a (Span.ofAccesses uses) (Session.accessAll ⟨b, 0⟩ uses).buffer := by
  unfold Buffer.new? at made
  split at made
  · rename_i positive
    cases made
    exact (Fresh.initial positive).preserves_accessAll (s := ⟨_, 0⟩) uses
  · cases made

theorem read_served {s : Session ο α} (fresh : Fresh mode a span s.buffer)
    (shown : objects ∈ span.moments) (inside : slot < s.buffer.size)
    (answered : (Session.readSlot (ε := ε) objects slot s).1 = .ok value) :
    span.Shown a slot value := by
  have read := (fresh.preserves_read shown inside (Session.readSlot_sound (ε := ε) ..)).2
  rw [answered] at read
  obtain ⟨same, equal, served⟩ := read.resolve_right (by simp)
  cases equal
  exact served

theorem slots_served {s : Session ο α} {place : Nat} (fresh : Fresh mode a span s.buffer)
    (shown : objects ∈ span.moments) (inside : ∀ slot ∈ slots, slot < s.buffer.size)
    (answered : (Session.readSlots (ε := ε) objects slots s).1 = .ok values)
    (there : values[place]? = some value) :
    ∃ slot, slots[place]? = some slot ∧ span.Shown a slot value := by
  induction slots generalizing s values place with
  | nil =>
    cases answered
    cases there
  | cons first rest ih =>
    have sound := Session.readSlot_sound (ε := ε) objects first s
    have alike := Session.reads_alike sound
    have kept := (fresh.preserves_read shown (inside first (by simp)) sound).1
    have served : (Session.readSlot (ε := ε) objects first s).1 = .ok value →
        span.Shown a first value := fresh.read_served shown (inside first (by simp))
    simp only [Session.readSlots, Act.bind_exact] at answered
    rcases ran : Session.readSlot (ε := ε) objects first s with ⟨failure | found, reached⟩ <;>
      rw [ran] at answered kept served alike
    · cases answered
    · dsimp only at answered
      rcases later : Session.readSlots (ε := ε) objects rest reached with ⟨failure | others, last⟩ <;>
        rw [later] at answered <;> cases answered
      cases place with
      | zero =>
        cases there
        exact ⟨first, rfl, served rfl⟩
      | succ place =>
        have below : ∀ other ∈ rest, other < reached.buffer.size := fun other member =>
          alike.size ▸ inside other (List.mem_cons_of_mem _ member)
        exact ih kept below (congrArg Prod.fst later) there

-- A copy that came to its end holds every slot. In the other modes a slot that is not held is read
-- from the collection, and there the objects have to show enough.
theorem answered {s : Session ο α} (fresh : Fresh mode a span s.buffer)
    (covered : span.stop ≤ objects.length) (inside : slot < s.buffer.size)
    (copied : mode = .copy → ∀ object ∈ span.bound.extract span.start span.stop, a.Shows object)
    (shown : mode = .copy ∨ ∀ object ∈ objects.extract span.start span.stop, a.Shows object) :
    ∃ value, (Session.valueAt (ε := ε) objects slot s).1 = .ok value := by
  have full : s.buffer.mode = .copy → ∃ value, s.buffer.staging.held? slot = some value := by
    intro copy
    have same := fresh.mode_eq.symm.trans copy
    exact fresh.full same (copied same) slot inside
  rw [Session.valueAt_inside inside]
  have sound := Session.readSlot_sound (ε := ε) objects slot s
  generalize Session.readSlot (ε := ε) objects slot s = result at sound
  cases sound with
  | held hits found => exact ⟨_, rfl⟩
  | fetched missing lazily seen => exact ⟨_, rfl⟩
  | unseen missing unseen =>
    rcases shown with copy | part
    · obtain ⟨value, held⟩ := full (fresh.mode_eq.trans copy)
      exact absurd (held.symm.trans missing) (by simp)
    · rw [← fresh.start_eq, ← fresh.stop_eq, ← fresh.accessor_eq] at part
      obtain ⟨value, live⟩ := Buffer.live_shown (fresh.stop_eq ▸ covered) inside part
      exact absurd (live.symm.trans unseen) (by simp)
  | absent missing beyond =>
    rcases beyond with copy | beyond
    · obtain ⟨value, held⟩ := full copy
      exact absurd (held.symm.trans missing) (by simp)
    · exact absurd (beyond _ fresh.sized) (Nat.not_le.mpr inside)

theorem answers {s : Session ο α} (fresh : Fresh mode a span s.buffer)
    (shown : objects ∈ span.moments) (covered : span.stop ≤ objects.length)
    (inside : slot < a.components * (span.stop - span.start))
    (enough : ∀ moment ∈ span.moments, ∀ object ∈ moment.extract span.start span.stop,
      a.Shows object) :
    ∃ value, (Session.viewed objects (Session.valueAt objects slot) s).1 = .ok value := by
  rw [Session.viewed_covered (fresh.stop_eq ▸ covered)]
  exact fresh.answered covered (fresh.size_eq ▸ inside)
    (fun _ => enough span.bound List.mem_cons_self) (.inr (enough objects shown))

end Fresh

structure Serves (a : Accessor ο α) (span : Span ο) (objects : List ο) (s : Session ο α) : Prop where
  value : ∀ slot value, (Session.viewed objects (Session.valueAt objects slot) s).1 = .ok value →
    span.Shown a slot value
  tried : ∀ slot value, (Session.viewed objects (Session.tryValueAt objects slot) s).1 = .ok value →
    span.Shown a slot value
  got : ∀ slot value, (Session.viewed objects (Session.get? objects slot) s).1 = .ok (some value) →
    span.Shown a slot value
  list : ∀ values, (Session.viewed objects (Session.toList objects) s).1 = .ok values →
    ∀ slot value, values[slot]? = some value → span.Shown a slot value
  aborts : ∀ slot, (∀ value, ¬ span.Shown a slot value) →
    ∃ note, (Session.viewed objects (Session.valueAt objects slot) s).1 = .error (.abort note) ∧
      (slot < a.components * (span.stop - span.start) →
        (Session.viewed objects (Session.tryValueAt objects slot) s).1 = .error (.abort note) ∧
        (Session.viewed objects (Session.get? objects slot) s).1 = .error (.abort note))
  answers : ∀ slot < a.components * (span.stop - span.start), span.stop ≤ objects.length →
    (∀ moment ∈ span.moments, ∀ object ∈ moment.extract span.start span.stop, a.Shows object) →
    ∃ value, (Session.viewed objects (Session.valueAt objects slot) s).1 = .ok value

theorem Fresh.serves {mode : Mode} {a : Accessor ο α} {span : Span ο} {s : Session ο α}
    (fresh : Fresh mode a span s.buffer) (shown : objects ∈ span.moments) :
    Serves a span objects s := by
  have single : ∀ {slot value}, (Session.valueAt (ε := ProjectionError) objects slot s).1 = .ok value →
      span.Shown a slot value := by
    intro slot value answered
    simp only [Session.valueAt, Act.bind_exact, Act.get_exact, Act.ite_exact] at answered
    split at answered
    · exact fresh.read_served shown ‹_› answered
    · cases answered
  refine ⟨fun slot value answered => single (Session.viewed_answered answered), ?_, ?_, ?_, ?_,
    fun slot inside covered => fresh.answers shown covered inside⟩
  · intro slot value answered
    have answered := Session.viewed_answered answered
    simp only [Session.tryValueAt, Act.bind_exact, Act.get_exact, Act.ite_exact] at answered
    split at answered
    · exact fresh.read_served shown ‹_› answered
    · cases answered
  · intro slot value answered
    have answered := Session.viewed_answered answered
    simp only [Session.get?, Act.bind_exact, Act.get_exact, Act.ite_exact] at answered
    split at answered
    · apply fresh.read_served (ε := ProjectionError) shown ‹_›
      rcases ran : Session.readSlot (ε := ProjectionError) objects slot s with
        ⟨failure | found, reached⟩ <;> rw [ran] at answered <;> cases answered
      rfl
    · cases answered
  · intro values answered slot value there
    have answered := Session.viewed_answered answered
    rw [Session.toList_exact] at answered
    obtain ⟨same, asked, served⟩ :=
      fresh.slots_served shown (fun _ member => List.mem_range.mp member) answered there
    rw [List.getElem?_eq_some_iff] at asked
    obtain ⟨inside, equal⟩ := asked
    rw [List.getElem_range] at equal
    exact equal ▸ served
  · intro slot none
    cases answered : (Session.viewed objects (Session.valueAt objects slot) s).1 with
    | ok value => exact absurd (single (Session.viewed_answered answered)) (none value)
    | error failure =>
      obtain ⟨note, rfl⟩ := Session.value_aborts answered
      refine ⟨note, rfl, fun inside => ?_⟩
      obtain ⟨tried, got⟩ := Session.inside_alike (fresh.size_eq ▸ inside)
      rw [got, tried, answered]
      exact ⟨rfl, rfl⟩

-- After any uses whatever, those included that were refused, cut short or aborted: a value that is
-- served was the scalar behind its slot, in the range of the last accepted refresh, at some moment
-- since that refresh began. Where there is no such value the read aborts. It does not abort where
-- every object of the range has shown enough all along.
theorem served_in_cycle [Scalar α] {name : String} {mode : Mode} {a : Accessor ο α} {b : Buffer ο α}
    (made : Buffer.new? name mode a = .ok b) (uses : List (Access ο α)) :
    (Session.accessAll ⟨b, 0⟩ uses).buffer.start = (Span.ofAccesses uses).start ∧
    (Session.accessAll ⟨b, 0⟩ uses).buffer.stop = (Span.ofAccesses uses).stop ∧
    ∀ objects, Serves a ((Span.ofAccesses uses).later objects) objects
      (Session.accessAll ⟨b, 0⟩ uses) := by
  have fresh := Fresh.reached made uses
  refine ⟨fresh.start_eq, fresh.stop_eq, ?_⟩
  intro objects
  exact (fresh.later objects).serves (Span.now _ objects)

def Access.shortened : List (Access (List UInt64) UInt64) :=
  [.refresh [[1, 2], [3, 4]] 0 2, .read [[1, 2], [3, 4]] .list, .refresh [[5, 6], [7]] 0 2]

-- What was copied before the short row is served; behind it the value of the older cycle is not.
theorem served_in_cycle_shortened :
    Buffer.new? "rows" .copy Accessor.rows =
      .ok (.initial "rows" .copy Accessor.rows Nat.zero_lt_two) ∧
    (∃ shown ∈ [[[5, 6], [7]], [[8, 9], [10, 11]]], Accessor.rows.component? shown 0 1 = some 6) ∧
    ∃ note, (Session.viewed [[8, 9], [10, 11]] (Session.valueAt [[8, 9], [10, 11]] 1)
        (Session.accessAll ⟨.initial "rows" .copy Accessor.rows Nat.zero_lt_two, 0⟩
          Access.shortened)).1 = .ok 6 ∧
      (Session.viewed [[5, 6], [7]] (Session.valueAt [[5, 6], [7]] 3)
        (Session.accessAll ⟨.initial "rows" .copy Accessor.rows Nat.zero_lt_two, 0⟩
          Access.shortened)).1 = .error (.abort note) := by
  have made : Buffer.new? "rows" .copy Accessor.rows =
      .ok (.initial "rows" .copy Accessor.rows Nat.zero_lt_two) := rfl
  obtain ⟨-, -, serves⟩ := served_in_cycle made Access.shortened
  have answered : (Session.viewed [[8, 9], [10, 11]] (Session.valueAt [[8, 9], [10, 11]] 1)
      (Session.accessAll ⟨.initial "rows" .copy Accessor.rows Nat.zero_lt_two, 0⟩
        Access.shortened)).1 = .ok 6 := rfl
  have missing : ∀ value, ¬ ((Span.ofAccesses Access.shortened).later [[5, 6], [7]]).Shown
      Accessor.rows 3 value := by
    rintro value ⟨-, shown, member, component⟩
    have absent : ∀ shown ∈ ((Span.ofAccesses Access.shortened).later [[5, 6], [7]]).moments,
        Accessor.rows.component? shown 0 3 = none := by decide
    exact Option.some_ne_none value (component.symm.trans (absent shown member))
  obtain ⟨note, aborted, -⟩ := (serves [[5, 6], [7]]).aborts 3 missing
  obtain ⟨-, shown, member, component⟩ := (serves [[8, 9], [10, 11]]).value 1 6 answered
  exact ⟨made, ⟨shown, member, component⟩, note, answered, aborted⟩

end InSitu
