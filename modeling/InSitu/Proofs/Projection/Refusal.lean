import InSitu.Projection.ReadOnly
import InSitu.Proofs.Projection.Tuples
namespace InSitu

inductive Request (ο α : Type) where
  | refresh (objects : List ο) (start stop : Nat)
  | tryView (objects : List ο)
  | read (objects : List ο) (pass : Pass α)
  | change (c : Change α)

inductive Reply (α : Type) where
  | done
  | value (value : α)
  | maybe (value : Option α)
  | values (values : List α)
  | widened (values : List Float)
  | place (place : Option Nat)
  | places (places : List Nat)
  | gathered (written : Session.Written α Unit)
  | copied (written : Session.Written α Nat)

namespace Session

def passed [Scalar α] (objects : List ο) : Pass α → Act (Session ο α) ProjectionError (Reply α)
  | .value index => return .value (← valueAt objects index)
  | .tryValue index => return .value (← tryValueAt objects index)
  | .get index => return .maybe (← get? objects index)
  | .tuple tuple => return .values (← tupleAt objects tuple)
  | .tryTuple tuple => return .values (← tryTupleAt objects tuple)
  | .widened tuple => return .widened (← widenedTuple objects tuple)
  | .search value start => return .place (← linearSearch objects value start)
  | .lookup value => return .places (← lookupAll objects value)
  | .gather tuples out => return .gathered (← gatherTuples objects tuples out)
  | .range first last out outComponents =>
    return .copied (← copyTupleRange objects first last out outComponents)
  | .list => return .values (← toList objects)
  | .append out => return .widened (← appendWidened objects out)

def ask [Scalar α] : Request ο α → Act (Session ο α) ProjectionError (Reply α)
  | .refresh objects start stop => do
    refresh objects start stop
    return .done
  | .tryView objects => do
    tryView objects
    return .done
  | .read objects pass => do
    view objects
    passed objects pass
  | .change c => do
    change c
    return .done

def askAll [Scalar α] (s : Session ο α) :
    List (Request ο α) → List (Outcome ProjectionError (Reply α)) × Session ο α
  | [] => ([], s)
  | request :: rest =>
    let (replies, last) := (ask request s).2.askAll rest
    ((ask request s).1 :: replies, last)

end Session

-- The replies that say that a request was not carried out. A change never is.
inductive Rejection : Request ο α → Outcome ProjectionError (Reply α) → Prop where
  | refresh : Rejection (.refresh objects start stop) (.error (.error cause))
  | tryView : Rejection (.tryView objects) (.error (.error cause))
  | tryValue : Rejection (.read objects (.tryValue index)) (.error (.error cause))
  | get : Rejection (.read objects (.get index)) (.ok (.maybe none))
  | tryTuple : Rejection (.read objects (.tryTuple tuple)) (.error (.error cause))
  | gather : Rejection (.read objects (.gather tuples out))
      (.ok (.gathered (.error (.outputTooSmall required available), written)))
  | range : Rejection (.read objects (.range first last out outComponents))
      (.ok (.copied (.error cause, written)))
  | change : Rejection (.change c) reply

inductive Declined (s : Session ο α) : Request ο α → Outcome ProjectionError (Reply α) → Prop where
  | refresh (outside : stop < start ∨ objects.length < stop) :
      Declined s (.refresh objects start stop)
        (.error (.error (.rangeOutOfBounds start stop objects.length)))
  | tryView (short : objects.length < s.buffer.stop) :
      Declined s (.tryView objects)
        (.error (.error (.rangeOutOfBounds s.buffer.start s.buffer.stop objects.length)))
  | tryValue (covered : s.buffer.stop ≤ objects.length) (outside : s.buffer.size ≤ index) :
      Declined s (.read objects (.tryValue index))
        (.error (.error (.indexOutOfRange index s.buffer.size)))
  | get (covered : s.buffer.stop ≤ objects.length) (outside : s.buffer.size ≤ index) :
      Declined s (.read objects (.get index)) (.ok (.maybe none))
  | tryTuple (covered : s.buffer.stop ≤ objects.length) (outside : s.buffer.tupleCount ≤ tuple) :
      Declined s (.read objects (.tryTuple tuple))
        (.error (.error (.tupleOutOfRange tuple s.buffer.tupleCount)))
  | gather (covered : s.buffer.stop ≤ objects.length)
      (small : out.length < tuples.length * s.buffer.components) :
      Declined s (.read objects (.gather tuples out)) (.ok (.gathered
        (.error (.outputTooSmall (tuples.length * s.buffer.components) out.length), out)))
  | range (covered : s.buffer.stop ≤ objects.length)
      (guarded : Session.rangeGuard s.buffer first last outComponents out.length = some (.error cause)) :
      Declined s (.read objects (.range first last out outComponents))
        (.ok (.copied (.error cause, out)))
  | write (refused : c.refusedAs = some operation) :
      Declined s (.change c) (.error (.error (.readOnly operation)))
  | squeeze : Declined s (.change .squeeze) (.ok .done)
  | clearLookup : Declined s (.change .clearLookup) (.ok .done)

namespace Session

theorem ask_covered [Scalar α] {s : Session ο α} (covered : s.buffer.stop ≤ objects.length)
    (pass : Pass α) : ask (.read objects pass) s = passed objects pass s :=
  viewed_covered covered (passed objects pass)

theorem ask_short [Scalar α] {s : Session ο α} (short : ¬ s.buffer.stop ≤ objects.length)
    (pass : Pass α) : ∃ note, ask (.read objects pass) s = (.error (.abort note), s) :=
  viewed_short short (passed objects pass)

theorem tryValueAt_outside {s : Session ο α} (outside : s.buffer.size ≤ index) :
    tryValueAt objects index s = (.error (.error (.indexOutOfRange index s.buffer.size)), s) := by
  simp only [tryValueAt, Act.bind_exact, Act.get_exact, if_neg (Nat.not_lt.mpr outside)]
  rfl

theorem get_outside {s : Session ο α} (outside : s.buffer.size ≤ index) :
    get? (ε := ε) objects index s = (.ok none, s) := by
  simp only [get?, Act.bind_exact, Act.get_exact, if_neg (Nat.not_lt.mpr outside)]
  rfl

theorem tryTupleAt_outside {s : Session ο α} (outside : s.buffer.tupleCount ≤ tuple) :
    tryTupleAt objects tuple s =
      (.error (.error (.tupleOutOfRange tuple s.buffer.tupleCount)), s) := by
  simp only [tryTupleAt, Act.bind_exact, Act.get_exact, if_neg (Nat.not_lt.mpr outside)]
  rfl

theorem tryTupleAt_inside {s : Session ο α} (inside : tuple < s.buffer.tupleCount) :
    tryTupleAt objects tuple s = readSlots objects (slotsOf s.buffer tuple 1) s := by
  rw [readSlots_values (slotsOf_inside (Nat.succ_le_of_lt inside))]
  simp only [tryTupleAt, tupleAt, Act.bind_exact, Act.get_exact, if_pos inside]

theorem declined_asked [Scalar α] {s : Session ο α} (declined : Declined s request reply) :
    ask request s = (reply, s) := by
  cases declined with
  | refresh outside => simp [ask, Act.bind_exact, refresh, outside]
  | tryView short => simp [ask, Act.bind_exact, tryView, Buffer.covers, short]
  | tryValue covered outside =>
    simp [ask_covered covered, passed, Act.bind_exact, tryValueAt_outside outside]
  | get covered outside =>
    simp [ask_covered covered, passed, Act.bind_exact, get_outside outside, Act.pure_exact]
  | tryTuple covered outside =>
    simp [ask_covered covered, passed, Act.bind_exact, tryTupleAt_outside outside]
  | gather covered small =>
    simp [ask_covered covered, passed, Act.bind_exact, gatherTuples_small small, Act.pure_exact]
  | range covered guarded =>
    simp [ask_covered covered, passed, Act.bind_exact, copyTupleRange_exact, guarded, Act.pure_exact]
  | write refused => simp [ask, Act.bind_exact, change, refused, Act.refuse]
  | squeeze => rfl
  | clearLookup => rfl

-- A read that is not carried out for want of an object is aborted. So a cause comes from a check.
theorem ask_open [Scalar α] {s : Session ο α} {pass : Pass α}
    (told : (ask (.read objects pass) s).1 = reply) (kept : ∀ note, reply ≠ .error (.abort note)) :
    s.buffer.stop ≤ objects.length ∧ (passed objects pass s).1 = reply := by
  by_cases covered : s.buffer.stop ≤ objects.length
  · exact ⟨covered, ask_covered covered pass ▸ told⟩
  · obtain ⟨note, aborted⟩ := ask_short covered pass
    exact absurd (told.symm.trans (congrArg Prod.fst aborted)) (kept note)

theorem readSlot_unrefused {s : Session ο α} {cause : ε} :
    (readSlot objects slot s).1 ≠ .error (.error cause) := by
  rw [readSlot_answer]
  cases s.buffer.answer? objects slot <;> nofun

theorem refresh_refused [Scalar α] {s : Session ο α}
    (refused : (refresh objects start stop s).1 = .error (.error cause)) :
    (stop < start ∨ objects.length < stop) ∧ cause = .rangeOutOfBounds start stop objects.length := by
  have sound := refresh_sound objects start stop s
  generalize refresh objects start stop s = result at sound refused
  cases sound with
  | refused outside =>
    cases refused
    exact ⟨outside, rfl⟩
  | bound | copied | interrupted | renewed => cases refused

theorem tryView_refused {s : Session ο α} (refused : (tryView objects s).1 = .error (.error cause)) :
    objects.length < s.buffer.stop ∧
      cause = .rangeOutOfBounds s.buffer.start s.buffer.stop objects.length := by
  unfold tryView Buffer.covers at refused
  by_cases short : objects.length < s.buffer.stop
  · rw [if_pos short] at refused
    cases refused
    exact ⟨short, rfl⟩
  · rw [if_neg short] at refused
    cases refused

theorem tryValueAt_refused {s : Session ο α}
    (refused : (tryValueAt objects index s).1 = .error (.error cause)) :
    s.buffer.size ≤ index ∧ cause = .indexOutOfRange index s.buffer.size := by
  by_cases inside : index < s.buffer.size
  · rw [tryValueAt_inside inside] at refused
    exact absurd refused readSlot_unrefused
  · rw [tryValueAt_outside (Nat.not_lt.mp inside)] at refused
    cases refused
    exact ⟨Nat.not_lt.mp inside, rfl⟩

theorem get_missing {s : Session ο α} (missing : (get? (ε := ε) objects index s).1 = .ok none) :
    s.buffer.size ≤ index := by
  by_cases inside : index < s.buffer.size
  · rw [get_inside inside] at missing
    obtain ⟨value, -, found⟩ := Outcome.map_answer missing
    cases found
  · exact Nat.not_lt.mp inside

theorem tryTupleAt_refused {s : Session ο α}
    (refused : (tryTupleAt objects tuple s).1 = .error (.error cause)) :
    s.buffer.tupleCount ≤ tuple ∧ cause = .tupleOutOfRange tuple s.buffer.tupleCount := by
  by_cases inside : tuple < s.buffer.tupleCount
  · rw [tryTupleAt_inside inside] at refused
    cases readSlots_aborts refused
  · rw [tryTupleAt_outside (Nat.not_lt.mp inside)] at refused
    cases refused
    exact ⟨Nat.not_lt.mp inside, rfl⟩

theorem gather_refused {s : Session ο α} (refused : (gatherTuples (ε := ε) objects tuples out s).1 =
      .ok (.error (.outputTooSmall required available), written)) :
    out.length < tuples.length * s.buffer.components ∧
      required = tuples.length * s.buffer.components ∧ available = out.length ∧ written = out := by
  by_cases small : out.length < tuples.length * s.buffer.components
  · rw [gatherTuples_small small] at refused
    cases refused
    exact ⟨small, rfl, rfl, rfl⟩
  · rw [gatherTuples_exact (Nat.not_lt.mp small)] at refused
    obtain ⟨values, -, same⟩ := Outcome.map_answer refused
    have verdict := congrArg Prod.fst same
    unfold rangeVerdict at verdict
    split at verdict <;> cases verdict

theorem range_refused {s : Session ο α}
    (refused : (copyTupleRange (ε := ε) objects first last out outComponents s).1 =
      .ok (.error cause, written)) :
    rangeGuard s.buffer first last outComponents out.length = some (.error cause) ∧ written = out := by
  rw [copyTupleRange_exact] at refused
  cases guarded : rangeGuard s.buffer first last outComponents out.length with
  | some verdict =>
    rw [guarded] at refused
    cases refused
    exact ⟨rfl, rfl⟩
  | none =>
    rw [guarded] at refused
    obtain ⟨values, -, same⟩ := Outcome.map_answer refused
    cases same

theorem asked_declined [Scalar α] {s : Session ο α} (told : (ask request s).1 = reply)
    (rejection : Rejection request reply) : Declined s request reply := by
  cases rejection with
  | refresh =>
    rw [ask, Act.return_exact] at told
    obtain ⟨outside, rfl⟩ := refresh_refused (Outcome.map_failure told)
    exact .refresh outside
  | tryView =>
    rw [ask, Act.return_exact] at told
    obtain ⟨short, rfl⟩ := tryView_refused (Outcome.map_failure told)
    exact .tryView short
  | tryValue =>
    obtain ⟨covered, told⟩ := ask_open told nofun
    rw [passed, Act.return_exact] at told
    obtain ⟨outside, rfl⟩ := tryValueAt_refused (Outcome.map_failure told)
    exact .tryValue covered outside
  | get =>
    obtain ⟨covered, told⟩ := ask_open told nofun
    rw [passed, Act.return_exact] at told
    obtain ⟨value, got, same⟩ := Outcome.map_answer told
    cases same
    exact .get covered (get_missing got)
  | tryTuple =>
    obtain ⟨covered, told⟩ := ask_open told nofun
    rw [passed, Act.return_exact] at told
    obtain ⟨outside, rfl⟩ := tryTupleAt_refused (Outcome.map_failure told)
    exact .tryTuple covered outside
  | gather =>
    obtain ⟨covered, told⟩ := ask_open told nofun
    rw [passed, Act.return_exact] at told
    obtain ⟨answer, gathered, same⟩ := Outcome.map_answer told
    cases same
    obtain ⟨small, rfl, rfl, rfl⟩ := gather_refused gathered
    exact .gather covered small
  | range =>
    obtain ⟨covered, told⟩ := ask_open told nofun
    rw [passed, Act.return_exact] at told
    obtain ⟨answer, copied, same⟩ := Outcome.map_answer told
    cases same
    obtain ⟨guarded, rfl⟩ := range_refused copied
    exact .range covered guarded
  | @change c =>
    rw [← told]
    cases c with
    | squeeze => exact .squeeze
    | clearLookup => exact .clearLookup
    | _ => exact .write rfl

theorem declined_exact [Scalar α] {s : Session ο α} :
    Declined s request reply ↔ (ask request s).1 = reply ∧ Rejection request reply := by
  refine ⟨fun declined => ⟨congrArg Prod.fst (declined_asked declined), ?_⟩,
    fun ⟨told, rejection⟩ => asked_declined told rejection⟩
  cases declined <;> constructor

theorem askAll_append [Scalar α] (s : Session ο α) (front back : List (Request ο α)) :
    s.askAll (front ++ back) =
      ((s.askAll front).1 ++ ((s.askAll front).2.askAll back).1, ((s.askAll front).2.askAll back).2) := by
  induction front generalizing s with
  | nil => rfl
  | cons request rest ih => simp only [List.cons_append, askAll, ih]

theorem askAll_length [Scalar α] (s : Session ο α) (requests : List (Request ο α)) :
    (s.askAll requests).1.length = requests.length := by
  induction requests generalizing s with
  | nil => rfl
  | cons request rest ih => simp only [askAll, List.length_cons, ih]

end Session

theorem named_refused [Scalar α] {values : List α}
    (named : Change.named? operation index values = some c) :
    c.refusedAs = if operation = "squeeze" ∨ operation = "clear_lookup" then none else some operation := by
  unfold Change.named? at named
  split at named <;> cases named <;> rfl

-- What comes of a request that is turned down behind `earlier` ones: its reply, and nothing else. Two
-- runs that differ in it alone have the same replies to all other requests and end in the same state.
structure Unnoticed [Scalar α] (s : Session ο α) (earlier : List (Request ο α)) (request : Request ο α)
    (reply : Outcome ProjectionError (Reply α)) : Prop where
  told : Declined (s.askAll earlier).2 request reply ↔
    (Session.ask request (s.askAll earlier).2).1 = reply ∧ Rejection request reply
  unchanged : Declined (s.askAll earlier).2 request reply →
    (Session.ask request (s.askAll earlier).2).2 = (s.askAll earlier).2
  unnoticed : Declined (s.askAll earlier).2 request reply → ∀ later, ∃ before after last,
    before.length = earlier.length ∧ s.askAll (earlier ++ later) = (before ++ after, last) ∧
      s.askAll (earlier ++ request :: later) = (before ++ reply :: after, last)
  named : ∀ operation index values c, Change.named? operation index values = some c →
    request = .change c → Session.ask request (s.askAll earlier).2 =
      (if operation = "squeeze" ∨ operation = "clear_lookup" then .ok .done
        else .error (.error (.readOnly operation)), (s.askAll earlier).2)

-- No state of a projection is excepted, in any mode.
theorem refusals_unnoticed [Scalar α] (s : Session ο α) (earlier : List (Request ο α))
    (request : Request ο α) (reply : Outcome ProjectionError (Reply α)) :
    Unnoticed s earlier request reply := by
  refine ⟨Session.declined_exact, fun declined => ?_, fun declined later => ?_, ?_⟩
  · rw [Session.declined_asked declined]
  · refine ⟨(s.askAll earlier).1, ((s.askAll earlier).2.askAll later).1,
      ((s.askAll earlier).2.askAll later).2, s.askAll_length earlier, s.askAll_append earlier later, ?_⟩
    rw [Session.askAll_append, Session.askAll, Session.declined_asked declined]
  · rintro operation index values c named rfl
    rw [Session.ask, Act.return_exact, Session.change, named_refused named]
    split_ifs <;> rfl

end InSitu
