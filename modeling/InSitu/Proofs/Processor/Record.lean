import InSitu.Processor
import InSitu.Proofs.Outcome
namespace InSitu

inductive Reach where
  | frame (id : ProcessorId) (frame : Frame)
  | finalized (id : ProcessorId)

namespace Reach

def id : Reach → ProcessorId
  | .frame id _ => id
  | .finalized id => id

def ends (number : ProcessorId) : Reach → Bool
  | .frame _ _ => false
  | .finalized id => id = number

end Reach

-- A consumer that does what it did and writes down what reaches it.
def Processor.watched (id : ProcessorId) (p : Processor ω) : Processor (ω × List Reach) where
  coProcess frame outside :=
    let (outcome, reached) := p.coProcess frame outside.1
    (outcome, (reached, outside.2 ++ [.frame id frame]))
  finalize outside := (p.finalize outside.1, outside.2 ++ [.finalized id])

inductive Use where
  | clone
  | drop
  | coProcess (frame : Frame)
  | shutdown

def Use.counted : Use → Nat → Nat
  | .clone, handles => handles + 1
  | .drop, handles => handles - 1
  | _, handles => handles

structure Life (ω : Type) where
  processor : Processor ω
  handles : Nat
  stopped : Bool
  frames : List Frame

namespace Life

def begun (p : Processor ω) : Life ω := ⟨p, 1, false, []⟩

def ended (life : Life ω) : Bool := life.stopped || life.handles = 0

def after (life : Life ω) (use : Use) : Life ω where
  processor := life.processor
  handles := use.counted life.handles
  stopped := match use with
    | .shutdown => true
    | _ => life.stopped
  frames := match use with
    | .coProcess frame => if life.ended then life.frames else life.frames ++ [frame]
    | _ => life.frames

-- Everything that has to have reached the consumer, in this order.
def reached (id : ProcessorId) (life : Life ω) : List Reach :=
  life.frames.map (.frame id) ++ if life.ended then [.finalized id] else []

def shared (id : ProcessorId) (life : Life ω) : Shared (ω × List Reach) :=
  ⟨if life.ended then none else some (life.processor.watched id), life.handles, ! life.ended⟩

end Life

inductive Event (ω : Type) where
  | share (p : Processor ω)
  | use (id : ProcessorId) (use : Use)

namespace Event

def record (lives : List (Life ω)) : Event ω → List (Life ω)
  | .share p => lives ++ [.begun p]
  | .use id act => lives.modify id (·.after act)

def perform (hub : Hub (ω × List Reach)) : Event ω → Hub (ω × List Reach)
  | .share p => (hub.share (p.watched hub.shared.length)).2
  | .use id .clone => hub.clone id
  | .use id .drop => hub.release id
  | .use id (.coProcess frame) => (Hub.coProcess id frame hub).2
  | .use id .shutdown => (hub.shutdown id).2

def lives (events : List (Event ω)) : List (Life ω) := events.foldl record []

def made (events : List (Event ω)) : List (Processor ω) := events.filterMap fun
  | .share p => some p
  | .use _ _ => none

def handed (id : ProcessorId) (events : List (Event ω)) : List Frame := events.filterMap fun
  | .use other (.coProcess frame) => if other = id then some frame else none
  | _ => none

inductive Traced : List (Event ω) → Prop where
  | none : Traced []
  | share {events : List (Event ω)} (traced : Traced events) (p : Processor ω) :
      Traced (events ++ [.share p])
  | use {events : List (Event ω)} {id : ProcessorId} {life : Life ω} (traced : Traced events)
      (act : Use) (there : (lives events)[id]? = some life) (held : 0 < life.handles) :
      Traced (events ++ [.use id act])

end Event

namespace Event
variable {events : List (Event ω)} {event : Event ω} {life : Life ω} {id : ProcessorId}

theorem lives_next (events : List (Event ω)) (event : Event ω) :
    lives (events ++ [event]) = record (lives events) event := by
  rw [lives, List.foldl_append]
  rfl

theorem handed_next (events : List (Event ω)) (event : Event ω) :
    handed id (events ++ [event]) = handed id events ++ handed id [event] := List.filterMap_append

theorem handed_apart (apart : ∀ act, event ≠ .use id act) : handed id [event] = [] := by
  cases event with
  | share p => rfl
  | use other act =>
    have different : other ≠ id := fun same => apart act (same ▸ rfl)
    cases act <;> simp [handed, different]

theorem handed_quiet (quiet : ∀ frame, act ≠ .coProcess frame) :
    handed id (events ++ [.use id act]) = handed id events := by
  cases act with
  | coProcess frame => exact absurd rfl (quiet frame)
  | clone | drop | shutdown => exact (handed_next events _).trans (List.append_nil _)

theorem handed_none (unused : ∀ act, .use id act ∉ events) : handed id events = [] := by
  rw [handed, List.filterMap_eq_nil_iff]
  intro event member
  cases event with
  | share p => rfl
  | use other act =>
    have different : other ≠ id := fun same => unused act (same ▸ member)
    cases act <;> simp [different]

theorem lives_made (events : List (Event ω)) (before : List (Life ω)) :
    (events.foldl record before).map (·.processor) =
      before.map (·.processor) ++ made events := by
  induction events generalizing before with
  | nil => simp [made]
  | cons event rest ih =>
    rw [List.foldl_cons, ih]
    cases event with
    | share p => simp [record, Life.begun, made]
    | use id act =>
      have same : (before.modify id (·.after act)).map (·.processor) =
          before.map (·.processor) := by
        apply List.ext_getElem?
        intro other
        simp only [List.getElem?_map, List.getElem?_modify]
        cases before[other]? with
        | none => rfl
        | some life => by_cases id = other <;> simp [Life.after, *]
      rw [record, same]
      rfl

theorem made_there (there : (made events)[id]? = some p) :
    ∃ life, (lives events)[id]? = some life ∧ life.processor = p := by
  have same := lives_made events []
  rw [List.map_nil, List.nil_append] at same
  rw [← same, List.getElem?_map] at there
  exact Option.map_eq_some_iff.mp there

-- What the record says of a consumer, in terms of the calls.
structure Told (events : List (Event ω)) (id : ProcessorId) (life : Life ω) : Prop where
  stopped : life.stopped = true ↔ .use id .shutdown ∈ events
  earlier : life.frames <+: handed id events
  all : life.ended = false → life.frames = handed id events

theorem Told.apart (told : Told events id life) (apart : ∀ act, event ≠ .use id act) :
    Told (events ++ [event]) id life := by
  have same : handed id (events ++ [event]) = handed id events := by
    rw [handed_next, handed_apart apart, List.append_nil]
  refine ⟨?_, same ▸ told.earlier, same ▸ told.all⟩
  rw [told.stopped]
  simp [(apart .shutdown).symm]

theorem Told.after (told : Told events id life) (held : 0 < life.handles) (act : Use) :
    Told (events ++ [.use id act]) id (life.after act) := by
  obtain ⟨stopped, earlier, all⟩ := told
  cases act with
  | coProcess frame =>
    have next : handed id (events ++ [.use id (.coProcess frame)]) = handed id events ++ [frame] := by
      rw [handed_next]
      simp [handed]
    have frames : (life.after (.coProcess frame)).frames =
        if life.ended then life.frames else life.frames ++ [frame] := rfl
    refine ⟨by simp [Life.after, stopped], ?_, ?_⟩
    · rw [next, frames]
      cases ended : life.ended with
      | true => exact earlier.trans (List.prefix_append _ _)
      | false => exact all ended ▸ List.prefix_refl _
    · intro alive
      have alive : life.ended = false := alive
      rw [next, frames, alive, ← all alive]
      rfl
  | shutdown =>
    refine ⟨by simp [Life.after], ?_, nofun⟩
    rw [handed_quiet (by simp)]
    exact earlier
  | clone | drop =>
    refine ⟨by simp [Life.after, stopped], ?_, ?_⟩
    · rw [handed_quiet (by simp)]
      exact earlier
    · intro alive
      have before : life.ended = false := by
        simp only [Life.ended, Life.after, Bool.or_eq_false_iff] at alive ⊢
        exact ⟨alive.1, decide_eq_false (Nat.ne_of_gt held)⟩
      rw [handed_quiet (by simp)]
      exact all before

theorem Told.begun (unused : ∀ act, .use id act ∉ events) (p : Processor ω) :
    Told (events ++ [.share p]) id (.begun p) := by
  refine ⟨by simp [Life.begun, unused], List.nil_prefix, ?_⟩
  intro alive
  rw [handed_next, handed_none unused]
  rfl

theorem traced_told (traced : Traced events) :
    (∀ id life, (lives events)[id]? = some life → Told events id life) ∧
      ∀ id, (lives events)[id]? = none → ∀ act, .use id act ∉ events := by
  induction traced with
  | none =>
    refine ⟨?_, fun id none act => nofun⟩
    intro id life there
    cases there
  | @share events traced p ih =>
    obtain ⟨told, unused⟩ := ih
    rw [lives_next]
    refine ⟨?_, ?_⟩
    · intro id life there
      rcases Nat.lt_trichotomy id (lives events).length with old | rfl | beyond
      · rw [record, List.getElem?_append_left old] at there
        exact (told id life there).apart fun act => nofun
      · simp only [record, List.getElem?_append_right (Nat.le_refl _), Nat.sub_self] at there
        cases there
        exact .begun (unused _ (List.getElem?_eq_none (Nat.le_refl _))) p
      · rw [List.getElem?_eq_none (by simp [record]; omega)] at there
        cases there
    · intro id none act member
      have beyond := List.getElem?_eq_none_iff.mp none
      rw [record, List.length_append] at beyond
      rcases List.mem_append.mp member with old | new
      · exact unused id (List.getElem?_eq_none (by omega)) act old
      · cases List.mem_singleton.mp new
  | @use events used _ traced act there held ih =>
    obtain ⟨told, unused⟩ := ih
    rw [lives_next]
    refine ⟨?_, ?_⟩
    · intro id life changed
      rw [record, List.getElem?_modify] at changed
      by_cases same : used = id
      · subst same
        rw [there] at changed
        simp only [if_true] at changed
        cases changed
        exact (told used _ there).after held act
      · simp only [same, if_false, Option.map_eq_map, Option.map_id'] at changed
        exact (told id life changed).apart fun other equal => same (by cases equal; rfl)
    · intro id none other member
      rw [record, List.getElem?_modify, Option.map_eq_map, Option.map_eq_none_iff] at none
      rcases List.mem_append.mp member with old | new
      · exact unused id none other old
      · cases List.mem_singleton.mp new
        cases none.symm.trans there

end Event

structure Follows (lives : List (Life ω)) (hub : Hub (ω × List Reach)) : Prop where
  shared : ∀ id, hub.shared[id]? = lives[id]?.map (Life.shared id)
  log : ∀ id, hub.outside.2.filter (fun reach => reach.id = id) =
    (lives[id]?.map (Life.reached id)).getD []

namespace Follows
variable {lives : List (Life ω)} {hub later : Hub (ω × List Reach)} {life : Life ω}
  {id : ProcessorId}

theorem onward (follows : Follows lives hub) (shared : later.shared = hub.shared)
    (log : later.outside.2 = hub.outside.2) : Follows lives later := by
  refine ⟨?_, ?_⟩
  · rw [shared]
    exact follows.shared
  · rw [log]
    exact follows.log

theorem length_eq (follows : Follows lives hub) : hub.shared.length = lives.length := by
  have same : hub.shared = lives.mapIdx Life.shared := by
    apply List.ext_getElem?
    intro id
    rw [follows.shared, List.getElem?_mapIdx]
  rw [same, List.length_mapIdx]

theorem used {act : Use} (follows : Follows lives hub) (there : lives[id]? = some life)
    {change : Shared (ω × List Reach) → Shared (ω × List Reach)}
    (shared : later.shared = hub.shared.modify id change)
    (entry : change (life.shared id) = (life.after act).shared id)
    (log : later.outside.2 = hub.outside.2 ++ added) (mine : ∀ reach ∈ added, reach.id = id)
    (grown : (life.after act).reached id = life.reached id ++ added) :
    Follows (lives.modify id (·.after act)) later := by
  refine ⟨?_, ?_⟩
  · intro other
    rw [shared, List.getElem?_modify, List.getElem?_modify, follows.shared]
    by_cases same : id = other
    · subst same
      simp [there, entry]
    · simp [same]
  · intro other
    rw [log, List.filter_append, follows.log, List.getElem?_modify]
    by_cases same : id = other
    · subst same
      have all : added.filter (fun reach => reach.id = id) = added :=
        List.filter_eq_self.mpr fun reach member => decide_eq_true (mine reach member)
      simp [there, all, grown]
    · have none : added.filter (fun reach => reach.id = other) = [] :=
        List.filter_eq_nil_iff.mpr fun reach member => by simpa [mine reach member] using same
      simp [none, same]

theorem processor_exact (follows : Follows lives hub) (there : lives[id]? = some life) :
    hub.processor? id = if life.ended then none else some (life.processor.watched id) := by
  simp [Hub.processor?, follows.shared, there, Life.shared]

theorem handles_exact (follows : Follows lives hub) (there : lives[id]? = some life) :
    hub.handleCount id = life.handles := by
  simp [Hub.handleCount, follows.shared, there, Life.shared]

theorem active_exact (follows : Follows lives hub) (there : lives[id]? = some life) :
    hub.isActive id = ! life.ended := by
  simp [Hub.isActive, follows.shared, there, Life.shared]

theorem coProcess_exact (follows : Follows lives hub) (there : lives[id]? = some life)
    (frame : Frame) : Hub.coProcess id frame hub =
      if life.ended then (.error (.error .processorShutDown), hub)
      else ((life.processor.coProcess frame hub.outside.1).1, {hub with
        outside := ((life.processor.coProcess frame hub.outside.1).2,
          hub.outside.2 ++ [.frame id frame])}) := by
  rw [Hub.coProcess, follows.processor_exact there]
  cases life.ended <;> rfl

theorem shutdown_exact (follows : Follows lives hub) (there : lives[id]? = some life) :
    (hub.shutdown id).1 = ! life.ended ∧
      (hub.shutdown id).2.shared = hub.shared.modify id
        (fun s => {s with processor := none, active := false}) ∧
      (hub.shutdown id).2.outside.2 =
        hub.outside.2 ++ if life.ended then [] else [.finalized id] := by
  rw [Hub.shutdown, Hub.finalize, follows.processor_exact there]
  cases life.ended with
  | false => exact ⟨rfl, rfl, rfl⟩
  | true => exact ⟨rfl, rfl, (List.append_nil _).symm⟩

theorem release_exact (follows : Follows lives hub) (there : lives[id]? = some life) :
    (hub.release id).shared = hub.shared.modify id (fun s =>
        if life.handles - 1 = 0 then ⟨none, s.handles - 1, false⟩
        else {s with handles := s.handles - 1}) ∧
      (hub.release id).outside.2 =
        hub.outside.2 ++ if life.handles - 1 = 0 ∧ ! life.ended then [.finalized id] else [] := by
  have count : ({ hub with shared := hub.shared.modify id fun s =>
      {s with handles := s.handles - 1} } : Hub (ω × List Reach)).handleCount id =
        life.handles - 1 := by
    simp [Hub.handleCount, follows.shared, there, Life.shared]
  have processor : ({ hub with shared := hub.shared.modify id fun s =>
      {s with handles := s.handles - 1} } : Hub (ω × List Reach)).processor? id =
        if life.ended then none else some (life.processor.watched id) := by
    simp [Hub.processor?, follows.shared, there, Life.shared]
  simp only [Hub.release, count, Hub.finalize, processor]
  by_cases last : life.handles - 1 = 0
  · simp only [last, if_true, List.modify_modify_eq, true_and]
    cases life.ended with
    | false => exact ⟨rfl, rfl⟩
    | true => exact ⟨rfl, (List.append_nil _).symm⟩
  · simp [last]

theorem use {act : Use} (follows : Follows lives hub) (there : lives[id]? = some life)
    (held : 0 < life.handles) :
    Follows (lives.modify id (·.after act)) (Event.perform hub (.use id act)) := by
  have handles : life.handles ≠ 0 := Nat.ne_of_gt held
  cases act with
  | clone =>
    refine follows.used there rfl ?_ (List.append_nil _).symm (by simp) ?_
    · simp [Life.shared, Life.after, Life.ended, Use.counted, handles]
    · simp [Life.reached, Life.after, Life.ended, Use.counted, handles]
  | drop =>
    obtain ⟨shared, log⟩ := follows.release_exact there
    refine follows.used there shared ?_ log ?_ ?_
    · by_cases last : life.handles - 1 = 0
      · simp [Life.shared, Life.after, Life.ended, Use.counted, last]
      · simp [Life.shared, Life.after, Life.ended, Use.counted, last, handles]
    · intro reach member
      split at member
      · cases List.mem_singleton.mp member
        rfl
      · cases member
    · cases stopped : life.stopped <;>
        simp [Life.reached, Life.after, Life.ended, Use.counted, handles, stopped]
  | coProcess frame =>
    have handed := congrArg Prod.snd (follows.coProcess_exact there frame)
    have still : hub.shared = hub.shared.modify id fun s => s := (List.modify_id ..).symm
    have same : (life.after (.coProcess frame)).ended = life.ended := rfl
    have frames : (life.after (.coProcess frame)).frames =
        if life.ended then life.frames else life.frames ++ [frame] := rfl
    rw [Event.perform, handed]
    cases ended : life.ended with
    | true =>
      refine follows.used there still rfl (List.append_nil _).symm (by simp) ?_
      rw [Life.reached, Life.reached, same, frames, ended]
      simp
    | false =>
      refine follows.used there still rfl rfl ?_ ?_
      · intro reach member
        cases List.mem_singleton.mp member
        rfl
      · rw [Life.reached, Life.reached, same, frames, ended]
        simp
  | shutdown =>
    obtain ⟨-, shared, log⟩ := follows.shutdown_exact there
    have closed : (life.after .shutdown).ended = true := rfl
    refine follows.used there shared rfl log ?_ ?_
    · intro reach member
      split at member
      · cases member
      · cases List.mem_singleton.mp member
        rfl
    · have frames : (life.after .shutdown).frames = life.frames := rfl
      rw [Life.reached, Life.reached, closed, frames]
      cases life.ended <;> simp

theorem share (follows : Follows lives hub) (p : Processor ω) :
    Follows (lives ++ [.begun p]) (Event.perform hub (.share p)) := by
  have size := follows.length_eq
  refine ⟨?_, ?_⟩
  · intro id
    show (hub.shared ++ [⟨some (p.watched hub.shared.length), 1, true⟩])[id]? = _
    rcases Nat.lt_trichotomy id lives.length with old | rfl | beyond
    · rw [List.getElem?_append_left (size ▸ old), List.getElem?_append_left old, follows.shared]
    · simp [size, Life.shared, Life.begun, Life.ended]
    · rw [List.getElem?_eq_none (by simp; omega), List.getElem?_eq_none (by simp; omega)]
      rfl
  · intro id
    show hub.outside.2.filter _ = _
    rw [follows.log]
    rcases Nat.lt_trichotomy id lives.length with old | rfl | beyond
    · rw [List.getElem?_append_left old]
    · simp [Life.reached, Life.begun, Life.ended]
    · rw [List.getElem?_eq_none (Nat.le_of_lt beyond), List.getElem?_eq_none (by simp; omega)]

theorem initial (outside : ω) : Follows [] (Hub.initial (outside, [])) :=
  ⟨fun _ => rfl, fun _ => rfl⟩

theorem finalized_exact (follows : Follows lives hub) (there : lives[id]? = some life) :
    hub.outside.2.countP (Reach.ends id) = if life.ended then 1 else 0 := by
  have own : hub.outside.2.countP (Reach.ends id) =
      (hub.outside.2.filter fun reach => reach.id = id).countP (Reach.ends id) := by
    rw [List.countP_filter]
    apply List.countP_congr
    intro reach member
    cases reach with
    | frame other frame => simp [Reach.ends]
    | finalized other =>
      rw [Bool.and_eq_true]
      exact ⟨fun ends => ⟨ends, ends⟩, And.left⟩
  have none : (life.frames.map (Reach.frame id)).countP (Reach.ends id) = 0 := by
    rw [List.countP_map, List.countP_eq_zero]
    intro frame member
    simp [Reach.ends]
  rw [own, follows.log, there, Option.map_some, Option.getD_some, Life.reached, List.countP_append,
    none]
  cases life.ended <;> simp [Reach.ends]

end Follows
end InSitu
