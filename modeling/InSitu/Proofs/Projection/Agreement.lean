import InSitu.Proofs.Projection.Accounts
namespace InSitu

theorem Act.bind_answer (x : Act σ ε α) (f : α → Act σ ε β) (s : σ) :
    ((x >>= f) s).1 = (x s).1 >>= fun a => (f a (x s).2).1 := by
  rw [bind_exact]
  rcases x s with ⟨failure | a, reached⟩ <;> rfl

def Outcome.given : Option α → Outcome ε α
  | some value => .ok value
  | none => .error (.abort none)

namespace Buffer

def answer? (b : Buffer ο α) (objects : List ο) (slot : Nat) : Option α :=
  match b.staging with
  | .direct => b.live? objects slot
  | .copied values => values[slot]?
  | .cached slots current => slots[slot]?.bind fun held =>
    if held.stamp = current then some held.value else b.live? objects slot

theorem filled_answer {b : Buffer ο α} (missing : b.staging.held? slot = none)
    (live : b.live? objects slot = some value) (other : Nat) :
    ({b with staging := b.staging.filled slot value} : Buffer ο α).answer? objects other =
      b.answer? objects other := by
  unfold answer?
  cases staging : b.staging with
  | direct => rfl
  | copied values => rfl
  | cached slots current =>
    simp only [staging, Staging.held?] at missing
    show (slots.set slot ⟨value, current⟩)[other]?.bind _ = slots[other]?.bind _
    by_cases same : other = slot
    · subst other
      cases found : slots[slot]? with
      | none => rw [List.set_eq_of_length_le (List.getElem?_eq_none_iff.mp found), found]; rfl
      | some held =>
        have inside := (List.getElem?_eq_some_iff.mp found).1
        have stale : ¬ held.stamp = current := by
          intro valid
          simp [found, valid] at missing
        simp [inside, stale, live]
    · rw [List.getElem?_set_ne (Ne.symm same)]
      rfl

end Buffer

namespace Session

theorem readSlot_answer (objects : List ο) (slot : Nat) (s : Session ο α) :
    (readSlot (ε := ε) objects slot s).1 = Outcome.given (s.buffer.answer? objects slot) := by
  unfold readSlot Buffer.answer?
  cases s.buffer.staging with
  | direct => cases seen : s.buffer.live? objects slot <;> simp [live, seen, Outcome.given]
  | copied values => cases found : values[slot]? <;> simp [found, Outcome.given]
  | cached slots current =>
    dsimp only
    cases found : slots[slot]? with
    | none => rfl
    | some held =>
      by_cases valid : held.stamp = current
      · simp [valid, Outcome.given]
      · cases seen : s.buffer.live? objects slot <;> simp [valid, live, seen, Outcome.given]

structure Steady (objects : List ο) (s later : Session ο α) : Prop where
  alike : later.buffer.Alike s.buffer
  answer : ∀ slot, later.buffer.answer? objects slot = s.buffer.answer? objects slot

namespace Steady
variable {objects : List ο} {s between later : Session ο α}

theorem refl : Steady objects s s := ⟨.refl, fun _ => rfl⟩

theorem trans (before : Steady objects s between) (after : Steady objects between later) :
    Steady objects s later :=
  ⟨after.alike.trans before.alike, fun slot => (after.answer slot).trans (before.answer slot)⟩

end Steady

-- A value that is fetched from another collection is the one that this collection shows.
theorem readSlot_steady {s : Session ο α} (agree : Agree objects shown s.buffer.start s.buffer.stop)
    (inside : slot < s.buffer.size) : Steady objects s (readSlot (ε := ε) shown slot s).2 := by
  have sound := readSlot_sound (ε := ε) shown slot s
  refine ⟨reads_alike sound, fun other => ?_⟩
  generalize readSlot (ε := ε) shown slot s = result at sound
  cases sound with
  | held hits found => rfl
  | fetched missing lazily seen =>
    exact Buffer.filled_answer missing (Buffer.live_agree agree inside seen) other
  | unseen missing unseen => rfl
  | absent missing beyond => rfl

theorem valueAt_steady {s later : Session ο α} (steady : Steady objects s later) (slot : Nat) :
    (valueAt (ε := ε) objects slot later).1 = (valueAt objects slot s).1 := by
  have size := steady.alike.size
  have name : later.buffer.fork.name = s.buffer.fork.name := congrArg Buffer.name steady.alike.made
  change later.buffer.name = s.buffer.name at name
  by_cases inside : slot < s.buffer.size
  · rw [valueAt_inside inside, valueAt_inside (size ▸ inside), readSlot_answer, readSlot_answer,
      steady.answer]
  · simp only [valueAt, Act.bind_exact, Act.get_exact, if_neg inside, name, size]
    rfl

theorem valueAt_reached (objects : List ο) (slot : Nat) (s : Session ο α) :
    Steady objects s (valueAt (ε := ε) objects slot s).2 := by
  by_cases inside : slot < s.buffer.size
  · rw [valueAt_inside inside]
    exact readSlot_steady (.same objects) inside
  · rw [valueAt_outside inside]
    exact .refl

theorem valuesAt_answer (objects : List ο) (indices : List Nat) (s : Session ο α) :
    (valuesAt (ε := ε) objects indices s).1 =
      indices.mapM fun index => (valueAt (ε := ε) objects index s).1 := by
  induction indices generalizing s with
  | nil => rfl
  | cons index rest ih =>
    have same : (fun other => (valueAt (ε := ε) objects other (valueAt (ε := ε) objects index s).2).1) =
        fun other => (valueAt (ε := ε) objects other s).1 :=
      funext (valueAt_steady (valueAt_reached objects index s))
    simp only [valuesAt, Act.bind_answer, Act.pure_exact, ih, same, List.mapM_cons]
    rfl

theorem readSlots_values {s : Session ο α} (inside : ∀ slot ∈ slots, slot < s.buffer.size) :
    readSlots (ε := ε) objects slots s = valuesAt objects slots s := by
  induction slots generalizing s with
  | nil => rfl
  | cons slot rest ih =>
    have alike := reads_alike (readSlot_sound (ε := ε) objects slot s)
    have later := fun member => ih (s := (readSlot (ε := ε) objects slot s).2) member
    simp only [readSlots, valuesAt, Act.bind_exact, valueAt_inside (inside slot (by simp))]
    rcases read : readSlot (ε := ε) objects slot s with ⟨failure | value, reached⟩
    · rfl
    · rw [read] at alike later
      dsimp only
      rw [later fun other member => alike.size ▸ inside other (List.mem_cons_of_mem _ member)]

structure Agrees [Scalar α] (objects : List ο) (v : Nat → Outcome ProjectionError α)
    (components tuples : Nat) (s : Session ο α) : Prop where
  value : ∀ place, (valueAt objects place s).1 = v place
  tried : ∀ place, (tryValueAt objects place s).1 =
    if place < components * tuples then v place
    else .error (.error (.indexOutOfRange place (components * tuples)))
  got : ∀ place, (get? objects place s).1 =
    if place < components * tuples then (v place).map some else .ok none
  tuple : ∀ tuple, (tupleAt objects tuple s).1 =
    (List.range components).mapM fun component => v (tuple * components + component)
  triedTuple : ∀ tuple, (tryTupleAt objects tuple s).1 =
    if tuple < tuples then (List.range components).mapM fun component => v (tuple * components + component)
    else .error (.error (.tupleOutOfRange tuple tuples))
  widened : ∀ tuple, (widenedTuple objects tuple s).1 =
    ((List.range components).mapM fun component => v (tuple * components + component)).map
      fun values => values.map Scalar.widen
  list : (toList objects s).1 = (List.range (components * tuples)).mapM v
  appended : ∀ out, (appendWidened objects out s).1 =
    ((List.range (components * tuples)).mapM v).map fun values => out ++ values.map Scalar.widen

theorem tupleAt_answer (objects : List ο) (tuple : Nat) (s : Session ο α) :
    (tupleAt (ε := ε) objects tuple s).1 = (List.range s.buffer.components).mapM fun component =>
      (valueAt (ε := ε) objects (tuple * s.buffer.components + component) s).1 := by
  have asked : tupleAt (ε := ε) objects tuple s = valuesAt objects (slotsOf s.buffer tuple 1) s := rfl
  rw [asked, valuesAt_answer, slotsOf, List.mapM_map, Nat.one_mul]
  rfl

theorem toList_single (objects : List ο) (s : Session ο α) :
    (toList (ε := ε) objects s).1 =
      (List.range s.buffer.size).mapM fun slot => (valueAt (ε := ε) objects slot s).1 := by
  rw [toList_exact, readSlots_values fun _ member => List.mem_range.mp member, valuesAt_answer]

theorem reads_single [Scalar α] (objects : List ο) (s : Session ο α) :
    Agrees objects (fun place => (valueAt objects place s).1) s.buffer.components s.buffer.tupleCount s := by
  have size : s.buffer.components * s.buffer.tupleCount = s.buffer.size := rfl
  refine ⟨fun _ => rfl, ?_, ?_, fun tuple => tupleAt_answer .., ?_, ?_, toList_single .., ?_⟩
  · intro place
    rw [size]
    split
    · rename_i inside
      rw [tryValueAt_inside inside, valueAt_inside inside]
    · rename_i outside
      simp only [tryValueAt, Act.bind_exact, Act.get_exact, if_neg outside]
      rfl
  · intro place
    rw [size]
    split
    · rename_i inside
      rw [get_inside inside, valueAt_inside inside]
    · rename_i outside
      simp only [get?, Act.bind_exact, Act.get_exact, if_neg outside]
      rfl
  · intro tuple
    rw [← tupleAt_answer]
    split
    · rename_i inside
      simp only [tryTupleAt, Act.bind_exact, Act.get_exact, if_pos inside]
    · rename_i outside
      simp only [tryTupleAt, Act.bind_exact, Act.get_exact, if_neg outside]
      rfl
  · intro tuple
    rw [← tupleAt_answer, widenedTuple, Act.bind_answer]
    rfl
  · intro out
    rw [size, ← toList_single, appendWidened, Act.bind_answer]
    rfl

theorem agrees_steady [Scalar α] {s later : Session ο α} (steady : Steady objects s later) :
    Agrees objects (fun place => (valueAt objects place s).1) s.buffer.components s.buffer.tupleCount
      later := by
  have same := funext (valueAt_steady (ε := ProjectionError) steady)
  have components : later.buffer.components = s.buffer.components :=
    congrArg Accessor.components (Buffer.made_accessor steady.alike.made)
  have tuples : later.buffer.tupleCount = s.buffer.tupleCount := steady.alike.tupleCount
  rw [← same, ← components, ← tuples]
  exact reads_single objects later

theorem passes_steady {s last : Session ο α} (agree : Agree objects shown s.buffer.start s.buffer.stop)
    (passes : Passes shown s slots last) : Steady objects s last := by
  induction passes with
  | none => exact .refl
  | read inside onward ih =>
    have first := readSlot_steady (ε := ProjectionError) agree inside
    refine first.trans (ih ?_)
    rw [first.alike.start_eq, first.alike.stop_eq]
    exact agree

def readAll [Scalar α] (s : Session ο α) (reads : List (List ο × Pass α)) : Session ο α :=
  s.accessAll (reads.map fun read => .read read.1 read.2)

theorem readAll_steady [Scalar α] {s : Session ο α} {reads : List (List ο × Pass α)}
    (agree : ∀ read ∈ reads, Agree objects read.1 s.buffer.start s.buffer.stop) :
    Steady objects s (s.readAll reads) := by
  induction reads generalizing s with
  | nil => exact .refl
  | cons read rest ih =>
    obtain ⟨shown, pass⟩ := read
    have first : Steady objects s (access (.read shown pass) s).2 := by
      by_cases covered : s.buffer.stop ≤ shown.length
      · have slotwise : Slotwise s.buffer.size shown _ := pass_slotwise pass
        obtain ⟨slots, passes⟩ := slotwise s rfl
        rw [access, viewed_covered covered]
        exact passes_steady (agree _ List.mem_cons_self) passes
      · obtain ⟨note, aborted⟩ := viewed_short covered (Session.pass shown pass)
        rw [access, aborted]
        exact .refl
    refine first.trans (ih fun other member => ?_)
    rw [first.alike.start_eq, first.alike.stop_eq]
    exact agree other (List.mem_cons_of_mem _ member)

end Session

namespace Fresh

theorem readAll [Scalar α] {mode : Mode} {a : Accessor ο α} {s : Session ο α}
    (fresh : Fresh mode a ⟨start, stop, bound, since⟩ s.buffer) (reads : List (List ο × Pass α)) :
    ∃ moments, Fresh mode a ⟨start, stop, bound, moments⟩ (s.readAll reads).buffer := by
  induction reads generalizing s since with
  | nil => exact ⟨since, fresh⟩
  | cons read rest ih => exact ih (fresh.preserves_access (.read read.1 read.2))

theorem viewed [Scalar α] {name : String} {mode : Mode} {a : Accessor ο α} {b : Buffer ο α}
    {reached : Session ο α} (made : Buffer.new? name mode a = .ok b) (uses : List (Access ο α))
    (completed : Session.refresh bound start stop (Session.accessAll ⟨b, 0⟩ uses) = (.ok (), reached))
    (since : List (List ο × Pass α)) :
    (mode = .copy → ∀ object ∈ bound.extract start stop, a.Shows object) ∧
      ∃ moments, Fresh mode a ⟨start, stop, bound, moments⟩ (reached.readAll since).buffer := by
  have before := Fresh.reached made uses
  have refreshed := Session.refresh_answered before.dated (congrArg Prod.fst completed)
  rw [completed] at refreshed
  have accessor : reached.buffer.accessor = a :=
    (Buffer.made_accessor refreshed.made).trans before.accessor_eq
  refine ⟨fun copy => ?_, (before.refreshed refreshed).readAll since⟩
  rw [← accessor]
  exact refreshed.copied ((Buffer.made_mode refreshed.made).trans (before.mode_eq.trans copy))

end Fresh

-- After any uses, a refresh that came to its end, and reads over collections of any kind: a view that
-- is opened then answers for every place of the range, unless the projection has to read an object
-- that shows too little. Each way to read answers with the values of single places, and it goes on
-- doing so behind reads of any number and order, on this view or on others over the same objects.
theorem reads_agree [Scalar α] {name : String} {mode : Mode} {a : Accessor ο α} {b : Buffer ο α}
    {reached : Session ο α} {objects : List ο} {start stop : Nat} (made : Buffer.new? name mode a = .ok b)
    (uses : List (Access ο α))
    (completed : Session.refresh bound start stop (Session.accessAll ⟨b, 0⟩ uses) = (.ok (), reached))
    (since : List (List ο × Pass α)) (covered : stop ≤ objects.length) :
    ((mode = .copy ∨ ∀ object ∈ objects.extract start stop, a.Shows object) →
      ∀ place < a.components * (stop - start),
        ∃ value, (Session.valueAt (ε := ProjectionError) objects place (reached.readAll since)).1 =
          .ok value) ∧
    ∀ earlier : List (List ο × Pass α), (∀ read ∈ earlier, Agree objects read.1 start stop) →
      Session.Agrees objects (fun place => (Session.valueAt objects place (reached.readAll since)).1)
        a.components (stop - start) ((reached.readAll since).readAll earlier) := by
  obtain ⟨copied, moments, fresh⟩ := Fresh.viewed made uses completed since
  constructor
  · intro shown place inside
    exact fresh.answered covered (fresh.size_eq ▸ inside) copied shown
  · intro earlier agree
    have components : (reached.readAll since).buffer.components = a.components :=
      congrArg Accessor.components fresh.accessor_eq
    have tuples : (reached.readAll since).buffer.tupleCount = stop - start := by
      simp only [Buffer.tupleCount, fresh.start_eq, fresh.stop_eq]
    rw [← components, ← tuples]
    refine Session.agrees_steady (Session.readAll_steady fun read member => ?_)
    rw [fresh.start_eq, fresh.stop_eq]
    exact agree read member

-- One slot was kept before the objects changed, and the others are read from the objects as they are.
-- The list is the same behind a tuple and another list.
theorem reads_agree_mixed :
    Buffer.new? "rows" .cache Accessor.rows =
      .ok (.initial "rows" .cache Accessor.rows Nat.zero_lt_two) ∧
    ∃ reached, Session.refresh [[1, 2], [3, 4]] 0 2
        (Session.accessAll ⟨.initial "rows" .cache Accessor.rows Nat.zero_lt_two, 0⟩ []) =
      (.ok (), reached) ∧
    (∃ value, (Session.valueAt (ε := ProjectionError) [[5, 6], [7, 8]] 3
      (reached.readAll [([[1, 2], [3, 4]], .value 1)])).1 = .ok value) ∧
    (Session.toList (ε := ProjectionError) [[5, 6], [7, 8]]
      ((reached.readAll [([[1, 2], [3, 4]], .value 1)]).readAll
        [([[5, 6], [7, 8]], .tuple 1), ([[5, 6], [7, 8]], .list)])).1 = .ok [5, 2, 7, 8] := by
  have made : Buffer.new? "rows" .cache Accessor.rows =
      .ok (.initial "rows" .cache Accessor.rows Nat.zero_lt_two) := rfl
  have completed : Session.refresh [[1, 2], [3, 4]] 0 2
      (Session.accessAll ⟨.initial "rows" .cache Accessor.rows Nat.zero_lt_two, 0⟩ []) = (.ok (), _) := rfl
  have covered : 2 ≤ ([[5, 6], [7, 8]] : List (List UInt64)).length := Nat.le_refl 2
  have enough : ∀ object ∈ List.extract [[5, 6], [7, 8]] 0 2, Accessor.rows.Shows object := by decide
  obtain ⟨answered, agrees⟩ :=
    reads_agree made [] completed [([[1, 2], [3, 4]], .value 1)] covered
  refine ⟨made, _, completed, answered (.inr enough) 3 (by decide), ?_⟩
  refine (agrees [([[5, 6], [7, 8]], .tuple 1), ([[5, 6], [7, 8]], .list)] ?_).list
  intro read member
  simp only [List.mem_cons, List.not_mem_nil, or_false] at member
  rcases member with rfl | rfl <;> exact .same _

end InSitu
