import InSitu.Proofs.Projection.Held
namespace InSitu

-- Every call brings the collection as it stands then. Nothing ties it to that of the call before.
inductive Call (ο : Type) where
  | refresh (objects : List ο) (start stop : Nat)
  | read (objects : List ο) (slot : Nat)

-- The calls since the last refresh that was accepted, as far as a later read can depend on them:
-- the range and the collection of that refresh, and for each slot the collection that its first
-- read was shown.
structure Cycle (ο : Type) where
  start : Nat
  stop : Nat
  bound : List ο
  first : Nat → Option (List ο)

namespace Cycle

def initial : Cycle ο := ⟨0, 0, [], fun _ => none⟩

def size (components : Nat) (c : Cycle ο) : Nat := components * (c.stop - c.start)

def after (components : Nat) (c : Cycle ο) : Call ο → Cycle ο
  | .refresh objects start stop =>
    if start ≤ stop ∧ stop ≤ objects.length then ⟨start, stop, objects, fun _ => none⟩ else c
  | .read objects slot =>
    if c.stop ≤ objects.length ∧ slot < c.size components ∧ c.first slot = none then
      {c with first := fun other => if other = slot then some objects else c.first other}
    else c

def ofCalls (components : Nat) (calls : List (Call ο)) : Cycle ο :=
  calls.foldl (after components) initial

def seen (mode : Mode) (c : Cycle ο) (objects : List ο) (slot : Nat) : List ο :=
  match mode with
  | .zeroCopy => objects
  | .copy => c.bound
  | .cache => (c.first slot).getD objects

def held? (mode : Mode) (a : Accessor ο α) (c : Cycle ο) (slot : Nat) : Option α :=
  match mode with
  | .zeroCopy => none
  | .copy => a.component? c.bound c.start slot
  | .cache => (c.first slot).bind fun shown => a.component? shown c.start slot

end Cycle

namespace Session

def perform [Scalar α] : Call ο → Act (Session ο α) ProjectionError (Option α)
  | .refresh objects start stop => do
    refresh objects start stop
    return none
  | .read objects slot => do
    view objects
    return some (← valueAt objects slot)

def performAll [Scalar α] (s : Session ο α) (calls : List (Call ο)) : Session ο α :=
  calls.foldl (fun s call => (perform call s).2) s

theorem perform_refresh [Scalar α] (objects : List ο) (start stop : Nat) (s : Session ο α) :
    (perform (.refresh objects start stop) s).2 = (refresh objects start stop s).2 := by
  simp only [perform, Act.bind_exact]
  rcases refresh objects start stop s with ⟨failure | done, reached⟩ <;> rfl

theorem perform_read [Scalar α] {s : Session ο α} (covered : s.buffer.stop ≤ objects.length)
    (inside : slot < s.buffer.size) :
    perform (.read objects slot) s =
      ((readSlot objects slot s).1.map some, (readSlot (ε := ProjectionError) objects slot s).2) := by
  have opened : view (ε := ProjectionError) objects s = (.ok (), s) := by
    simp [view, Buffer.covers, Nat.not_lt.mpr covered]
  simp only [perform, valueAt, Act.bind_exact, Act.get_exact, opened, if_pos inside]
  rcases readSlot objects slot s with ⟨failure | value, reached⟩ <;> rfl

theorem perform_refused [Scalar α] {s : Session ο α}
    (refused : ¬ (s.buffer.stop ≤ objects.length ∧ slot < s.buffer.size)) :
    (perform (.read objects slot) s).2 = s := by
  by_cases covered : s.buffer.stop ≤ objects.length
  · have outside : ¬ slot < s.buffer.size := fun inside => refused ⟨covered, inside⟩
    have opened : view (ε := ProjectionError) objects s = (.ok (), s) := by
      simp [view, Buffer.covers, Nat.not_lt.mpr covered]
    simp only [perform, valueAt, Act.bind_exact, Act.get_exact, opened, if_neg outside]
    rfl
  · simp [perform, Act.bind_exact, view, Buffer.covers, Nat.not_le.mp covered]

end Session

-- A projection holds exactly what the record of its calls says that it has to.
structure Tracks (mode : Mode) (a : Accessor ο α) (c : Cycle ο) (b : Buffer ο α) : Prop where
  accessor_eq : b.accessor = a
  mode_eq : b.mode = mode
  start_eq : b.start = c.start
  stop_eq : b.stop = c.stop
  within : c.stop ≤ c.bound.length
  covered : ∀ slot shown, c.first slot = some shown → c.stop ≤ shown.length
  sized : b.staging.Sized b.size
  dated : b.staging.Dated
  held : ∀ slot < b.size, b.staging.held? slot = c.held? mode a slot

namespace Tracks

variable {mode : Mode} {a : Accessor ο α} {c : Cycle ο}

theorem initial (positive : 0 < a.components) :
    Tracks mode a Cycle.initial (Buffer.initial name mode a positive) := by
  refine ⟨rfl, Staging.initial_mode mode, rfl, rfl, Nat.le_refl _, ?_, ?_, Staging.initial_dated mode, ?_⟩
  · intro slot shown found
    cases found
  · cases mode <;> simp [Buffer.initial, Staging.initial, Staging.Sized, Buffer.size, Buffer.tupleCount]
  · intro slot inside
    simp [Buffer.initial, Buffer.size, Buffer.tupleCount] at inside

theorem size_eq {b : Buffer ο α} (tracks : Tracks mode a c b) : b.size = c.size a.components := by
  simp [Buffer.size, Buffer.components, Buffer.tupleCount, Cycle.size, tracks.accessor_eq,
    tracks.start_eq, tracks.stop_eq]

theorem preserves_refresh [Scalar α] {s : Session ο α} (enough : ∀ object, a.Shows object)
    (tracks : Tracks mode a c s.buffer) (objects : List ο) (start stop : Nat) :
    Tracks mode a (c.after a.components (.refresh objects start stop))
      (Session.refresh objects start stop s).2.buffer := by
  by_cases accepted : start ≤ stop ∧ stop ≤ objects.length
  · obtain ⟨accessor, sameMode⟩ := And.intro tracks.accessor_eq tracks.mode_eq
    have shown : ∀ object ∈ objects, s.buffer.accessor.Shows object :=
      fun object _ => accessor ▸ enough object
    have refreshed := Session.refresh_answered tracks.dated
      (Session.refresh_complete shown accepted.1 accepted.2)
    generalize (Session.refresh objects start stop s).2.buffer = b at refreshed ⊢
    have accessorAfter : b.accessor = a := (Buffer.made_accessor refreshed.made).trans accessor
    have modeAfter : b.mode = mode := (Buffer.made_mode refreshed.made).trans sameMode
    simp only [Cycle.after, if_pos accepted]
    refine ⟨accessorAfter, modeAfter, refreshed.start_eq, refreshed.stop_eq, accepted.2, ?_,
      refreshed.sized, refreshed.dated, ?_⟩
    · intro slot shown found
      cases found
    · intro slot inside
      rw [refreshed.held slot inside, modeAfter, accessorAfter]
      cases mode <;> rfl
  · have refused : stop < start ∨ objects.length < stop := by omega
    simpa [Session.refresh, refused, Cycle.after, accepted] using tracks

theorem unread {b : Buffer ο α} (tracks : Tracks mode a c b) (enough : ∀ object, a.Shows object)
    (inside : slot < b.size) (missing : b.staging.held? slot = none) :
    mode ≠ .copy ∧ (mode = .cache → c.first slot = none) := by
  have positive : 0 < a.components := tracks.accessor_eq ▸ b.components_pos
  have unheld := (tracks.held slot inside).symm.trans missing
  rw [tracks.size_eq] at inside
  constructor
  · rintro rfl
    obtain ⟨value, found⟩ :=
      a.component_exists positive (fun object _ => enough object) inside tracks.within
    exact Option.some_ne_none value (found.symm.trans unheld)
  · rintro rfl
    cases read : c.first slot with
    | none => rfl
    | some shown =>
      obtain ⟨value, found⟩ := a.component_exists positive (fun object _ => enough object) inside
        (tracks.covered slot shown read)
      simp [Cycle.held?, read, found] at unheld

theorem readOn {s : Session ο α} (tracks : Tracks mode a c s.buffer)
    (read : Session.ReadsSlot (ε := ε) objects slot s result)
    (held : ∀ other < s.buffer.size, result.2.buffer.staging.held? other =
      (c.after a.components (.read objects slot)).held? mode a other) :
    Tracks mode a (c.after a.components (.read objects slot)) result.2.buffer := by
  obtain ⟨made, start, stop⟩ := Session.reads_keep read
  have accessor := Buffer.made_accessor made
  have sameMode := Buffer.made_mode made
  have size : result.2.buffer.size = s.buffer.size := by
    simp [Buffer.size, Buffer.components, Buffer.tupleCount, accessor, start, stop]
  have record : (c.after a.components (.read objects slot)).start = c.start ∧
      (c.after a.components (.read objects slot)).stop = c.stop ∧
      (c.after a.components (.read objects slot)).bound = c.bound := by
    simp only [Cycle.after]
    split <;> exact ⟨rfl, rfl, rfl⟩
  refine ⟨accessor.trans tracks.accessor_eq, sameMode.trans tracks.mode_eq,
    start.trans (tracks.start_eq.trans record.1.symm), stop.trans (tracks.stop_eq.trans record.2.1.symm),
    ?_, ?_, ?_, Session.reads_dated read tracks.dated, ?_⟩
  · rw [record.2.1, record.2.2]
    exact tracks.within
  · intro other shown
    rw [record.2.1]
    simp only [Cycle.after]
    split
    · rename_i valid
      by_cases same : other = slot
      · rintro found
        simp only [same, if_true, Option.some.injEq] at found
        exact found ▸ valid.1
      · simpa [same] using tracks.covered other shown
    · exact tracks.covered other shown
  · rw [size]
    exact Session.reads_sized read tracks.sized
  · rw [size]
    exact held

theorem preserves_read {s : Session ο α} (tracks : Tracks mode a c s.buffer)
    (enough : ∀ object, a.Shows object) (covers : c.stop ≤ objects.length)
    (inside : slot < c.size a.components)
    (read : Session.ReadsSlot (ε := ε) objects slot s result) :
    (∃ value, a.component? (c.seen mode objects slot) c.start slot = some value ∧
      result.1 = .ok value) ∧
    Tracks mode a (c.after a.components (.read objects slot)) result.2.buffer := by
  have positive : 0 < a.components := tracks.accessor_eq ▸ s.buffer.components_pos
  have inRange : slot < s.buffer.size := tracks.size_eq ▸ inside
  have live : s.buffer.live? objects slot = a.component? objects c.start slot := by
    rw [s.buffer.live_component fun object _ => tracks.accessor_eq ▸ enough object,
      tracks.accessor_eq, tracks.start_eq]
  obtain ⟨current, there⟩ :=
    a.component_exists positive (fun object _ => enough object) inside covers
  have record : ∀ other, (c.after a.components (.read objects slot)).held? mode a other =
      if mode = .cache ∧ c.first slot = none ∧ other = slot then some current
      else c.held? mode a other := by
    intro other
    by_cases unread : c.first slot = none
    · by_cases same : other = slot
      · subst other
        cases mode <;> simp [Cycle.after, Cycle.held?, covers, inside, unread, there]
      · cases mode <;> simp [Cycle.after, Cycle.held?, covers, inside, unread, same]
    · simp [Cycle.after, unread]
  have onward := tracks.readOn read
  cases read with
  | held hits found =>
    have known := (tracks.held slot inRange).symm.trans found
    cases mode with
    | zeroCopy => cases known
    | copy =>
      refine ⟨⟨_, known, rfl⟩, onward fun other below => ?_⟩
      simp only [record, reduceCtorEq, false_and, if_false]
      exact tracks.held other below
    | cache =>
      obtain ⟨shown, read, value⟩ := Option.bind_eq_some_iff.mp known
      refine ⟨⟨_, by simpa [Cycle.seen, read] using value, rfl⟩, onward fun other below => ?_⟩
      simp only [record, read, reduceCtorEq, false_and, and_false, if_false]
      exact tracks.held other below
  | fetched missing lazily seen =>
    obtain ⟨noCopy, unread⟩ := tracks.unread enough inRange missing
    cases (live.trans there).symm.trans seen
    cases mode with
    | copy => exact absurd rfl noCopy
    | zeroCopy =>
      refine ⟨⟨_, there, rfl⟩, onward fun other below => ?_⟩
      simp only [Session.staged, Session.reading, Buffer.counting, Staging.filled_direct tracks.mode_eq,
        record, reduceCtorEq, false_and, if_false]
      exact tracks.held other below
    | cache =>
      refine ⟨⟨_, by simpa [Cycle.seen, unread rfl] using there, rfl⟩, onward fun other below => ?_⟩
      have filled : (s.buffer.staging.filled slot current).held? other = _ :=
        Staging.filled_held tracks.mode_eq tracks.sized inRange other
      simp only [record, unread rfl, true_and]
      rw [← tracks.held other below]
      exact filled
  | unseen missing unseen => exact absurd ((live.trans there).symm.trans unseen) (by simp)
  | absent missing beyond =>
    obtain ⟨noCopy, unread⟩ := tracks.unread enough inRange missing
    rcases beyond with copy | beyond
    · exact absurd (tracks.mode_eq.symm.trans copy) noCopy
    · exact absurd (beyond _ tracks.sized) (Nat.not_le.mpr inRange)

theorem preserves_perform [Scalar α] {s : Session ο α} (enough : ∀ object, a.Shows object)
    (tracks : Tracks mode a c s.buffer) (call : Call ο) :
    Tracks mode a (c.after a.components call) (Session.perform call s).2.buffer := by
  cases call with
  | refresh objects start stop =>
    rw [Session.perform_refresh]
    exact tracks.preserves_refresh enough objects start stop
  | read objects slot =>
    by_cases valid : s.buffer.stop ≤ objects.length ∧ slot < s.buffer.size
    · rw [Session.perform_read valid.1 valid.2]
      rw [tracks.stop_eq, tracks.size_eq] at valid
      exact (tracks.preserves_read enough valid.1 valid.2 (Session.readSlot_sound ..)).2
    · rw [Session.perform_refused valid]
      rw [tracks.stop_eq, tracks.size_eq] at valid
      have traceless : c.after a.components (.read objects slot) = c :=
        if_neg fun traced => valid ⟨traced.1, traced.2.1⟩
      rw [traceless]
      exact tracks

theorem preserves_performAll [Scalar α] {s : Session ο α} (enough : ∀ object, a.Shows object)
    (tracks : Tracks mode a c s.buffer) (calls : List (Call ο)) :
    Tracks mode a (calls.foldl (Cycle.after a.components) c) (s.performAll calls).buffer := by
  induction calls generalizing s c with
  | nil => exact tracks
  | cons call rest ih => exact ih (tracks.preserves_perform enough call)

theorem read_answer [Scalar α] {s : Session ο α} (tracks : Tracks mode a c s.buffer)
    (enough : ∀ object, a.Shows object) (covers : c.stop ≤ objects.length)
    (inside : slot < c.size a.components) :
    ∃ value, a.component? (c.seen mode objects slot) c.start slot = some value ∧
      (Session.perform (.read objects slot) s).1 = .ok (some value) := by
  obtain ⟨⟨value, seen, answered⟩, -⟩ :=
    tracks.preserves_read enough covers inside (Session.readSlot_sound ..)
  refine ⟨value, seen, ?_⟩
  rw [Session.perform_read (tracks.stop_eq ▸ covers) (tracks.size_eq ▸ inside), answered]
  rfl

end Tracks

-- After any calls whatever, a read inside the range answers the component that its mode lets it see:
-- of the collection handed to it, of that at the last refresh, or of that at the slot's first read
-- since. A new cycle never answers with what a slot held before it, however the range had moved.
theorem reads_show_mode [Scalar α] {name : String} {mode : Mode} {a : Accessor ο α} {b : Buffer ο α}
    (made : Buffer.new? name mode a = .ok b) (enough : ∀ object, a.Shows object)
    (calls : List (Call ο)) :
    ((Session.performAll ⟨b, 0⟩ calls).buffer.start = (Cycle.ofCalls a.components calls).start ∧
      (Session.performAll ⟨b, 0⟩ calls).buffer.stop = (Cycle.ofCalls a.components calls).stop) ∧
    (∀ objects slot, (Session.performAll ⟨b, 0⟩ calls).buffer.stop ≤ objects.length →
      slot < (Session.performAll ⟨b, 0⟩ calls).buffer.size →
      ∃ value, a.component? ((Cycle.ofCalls a.components calls).seen mode objects slot)
          (Cycle.ofCalls a.components calls).start slot = some value ∧
        (Session.perform (.read objects slot) (Session.performAll ⟨b, 0⟩ calls)).1 =
          .ok (some value)) ∧
    (∀ shown start stop objects slot, start ≤ stop → stop ≤ shown.length → stop ≤ objects.length →
      slot < a.components * (stop - start) → mode = .cache →
      (Session.perform (.read objects slot)
        (Session.performAll ⟨b, 0⟩ (calls ++ [.refresh shown start stop]))).1 =
          .ok (a.component? objects start slot)) := by
  have tracked : ∀ calls, Tracks mode a (Cycle.ofCalls a.components calls)
      (Session.performAll ⟨b, 0⟩ calls).buffer := by
    intro calls
    unfold Buffer.new? at made
    split at made
    · rename_i positive
      cases made
      exact (Tracks.initial positive).preserves_performAll (s := ⟨_, 0⟩) enough calls
    · cases made
  refine ⟨⟨(tracked calls).start_eq, (tracked calls).stop_eq⟩, ?_, ?_⟩
  · intro objects slot covers inside
    rw [(tracked calls).stop_eq] at covers
    rw [(tracked calls).size_eq] at inside
    exact (tracked calls).read_answer enough covers inside
  · rintro shown start stop objects slot ordered within covers inside rfl
    have renewed : Cycle.ofCalls a.components (calls ++ [.refresh shown start stop]) =
        ⟨start, stop, shown, fun _ => none⟩ := by
      simp [Cycle.ofCalls, Cycle.after, ordered, within]
    have tracks := tracked (calls ++ [.refresh shown start stop])
    rw [renewed] at tracks
    obtain ⟨value, seen, answered⟩ := tracks.read_answer enough covers inside
    rw [answered]
    exact congrArg Except.ok seen.symm

def Call.regrown : List (Call (UInt64 × UInt64)) :=
  [.refresh [(1, 2), (3, 4)] 0 2, .read [(1, 2), (3, 5)] 3, .refresh [(1, 2), (3, 6)] 0 1,
    .refresh [(1, 2), (3, 7)] 0 2, .read [(1, 2), (3, 8)] 3]

-- The first read of the new cycle is what later reads show; the value of the older cycle is gone.
theorem reads_show_mode_regrown :
    Buffer.new? "pair" .cache Accessor.halves =
      .ok (.initial "pair" .cache Accessor.halves Nat.zero_lt_two) ∧
    (∀ pair, Accessor.halves.Shows pair) ∧
    (Session.perform (.read [(1, 2), (3, 9)] 3) (Session.performAll
      ⟨.initial "pair" .cache Accessor.halves Nat.zero_lt_two, 0⟩ Call.regrown)).1 = .ok (some 8) := by
  have made : Buffer.new? "pair" .cache Accessor.halves =
      .ok (.initial "pair" .cache Accessor.halves Nat.zero_lt_two) := rfl
  have enough : ∀ pair, Accessor.halves.Shows pair := fun _ => Nat.le_refl 2
  obtain ⟨-, shows, -⟩ := reads_show_mode made enough Call.regrown
  obtain ⟨value, seen, answered⟩ := shows [(1, 2), (3, 9)] 3 (by decide) (by decide)
  cases (show some 8 = some value from seen)
  exact ⟨made, enough, answered⟩

end InSitu
