import InSitu.Proofs.Adaptor.Ledger
import InSitu.Proofs.Processor.Record
namespace InSitu

structure Site (ο ω : Type) where
  host : Host (ω × List Reach)
  loose : List ProcessorId
  adaptors : List (Adaptor ο)

namespace Site

def hub (site : Site ο ω) : Hub (ω × List Reach) := site.host.hub

def withHub (site : Site ο ω) (hub : Hub (ω × List Reach)) : Site ο ω :=
  {site with host := {site.host with hub}}

def log (site : Site ο ω) : List Reach := site.hub.outside.2

def finalized (site : Site ο ω) (id : ProcessorId) : Nat := site.log.countP (Reach.ends id)

def holders (site : Site ο ω) (id : ProcessorId) : Nat :=
  site.loose.count id + site.adaptors.countP (·.processor = some id)

end Site

theorem Site.holders_split {site : Site ο ω} (there : site.adaptors = before ++ a :: after)
    (id : ProcessorId) : site.holders id = site.loose.count id +
      (before.countP (·.processor = some id) + after.countP (·.processor = some id)) +
        if a.processor = some id then 1 else 0 := by
  rw [holders, there, List.countP_append, List.countP_cons]
  simp only [decide_eq_true_eq]
  omega

theorem Site.holders_same {site : Site ο ω} {next : Adaptor ο}
    (there : site.adaptors = before ++ a :: after) (same : next.processor = a.processor)
    (host : Host (ω × List Reach)) (id : ProcessorId) :
    Site.holders ⟨host, site.loose, before ++ next :: after⟩ id = site.holders id := by
  rw [site.holders_split there, Site.holders_split rfl, same]

theorem Site.holders_without {site : Site ο ω} (there : site.adaptors = before ++ a :: after)
    (host : Host (ω × List Reach)) (id : ProcessorId) :
    Site.holders ⟨host, site.loose, before ++ after⟩ id =
      site.holders id - if a.processor = some id then 1 else 0 := by
  rw [site.holders_split there, Nat.add_sub_cancel, holders, List.countP_append]

theorem Site.holders_more (site : Site ο ω) (host : Host (ω × List Reach)) (id other : ProcessorId) :
    Site.holders ⟨host, id :: site.loose, site.adaptors⟩ other =
      site.holders other + if other = id then 1 else 0 := by
  rw [holders, holders]
  by_cases same : other = id
  · rw [same, List.count_cons_self, if_pos rfl, Nat.add_right_comm]
  · rw [List.count_cons_of_ne (Ne.symm same), if_neg same, Nat.add_zero]

theorem Site.holders_fewer {site : Site ο ω} {id : ProcessorId} (held : id ∈ site.loose)
    (host : Host (ω × List Reach)) (other : ProcessorId) :
    Site.holders ⟨host, site.loose.erase id, site.adaptors⟩ other =
      site.holders other - if other = id then 1 else 0 := by
  rw [holders, holders]
  by_cases same : other = id
  · rw [same, List.count_erase_self, if_pos rfl, Nat.sub_add_comm (List.count_pos_iff.mpr held)]
  · rw [List.count_erase_of_ne same, if_neg same, Nat.sub_zero]

theorem Hub.release_note (hub : Hub ω) (notice : Notice) (id : ProcessorId) :
    ((hub.note notice).release id).reach = (hub.release id).reach := by
  unfold Hub.release Hub.finalize Hub.note
  simp only [Hub.handleCount, Hub.processor?]
  generalize hub.shared.modify id _ = released
  by_cases last : (released[id]?.map (·.handles)).getD 0 = 0
  · simp only [last, if_true]
    cases released[id]?.bind (·.processor) <;> rfl
  · simp only [last, if_false]
    rfl

namespace Adaptor

theorem writeInfo_reach (a : Adaptor ο) (host : Host ω) :
    (a.writeInfo host).2.hub.reach = host.hub.reach := by
  unfold writeInfo onFiles Act.within
  rcases a.info.write a.config.outputDir host.files with ⟨(cause | note) | path, reached⟩ <;> rfl

theorem command_reach (launch : Launcher) (c : StateCommand) (sidecar : Path) (host : Host ω) :
    (c.run launch sidecar host).2.hub.reach = host.hub.reach := by
  unfold StateCommand.run
  simp only [Act.bind_exact, Act.modify_exact, Act.get_exact]
  cases launch c sidecar (host.note (.generatingState (c.commandLine sidecar))).files <;> rfl

theorem finish_reach (launch : Launcher) (a : Adaptor ο) (host : Host ω) :
    (a.finish launch host).2.hub.reach = (a.releaseProcessor host).hub.reach := by
  have wrote := a.writeInfo_reach (a.releaseProcessor host)
  unfold finish
  simp only [Act.bind_exact, Act.modify_exact]
  cases a.config.exportFiles with
  | false => rfl
  | true =>
    simp only [if_true, Act.bind_exact]
    rcases made : a.writeInfo (a.releaseProcessor host) with ⟨fault | sidecar, reached⟩ <;>
      rw [made] at wrote
    · exact wrote
    · cases a.config.stateCommand with
      | none => exact wrote
      | some command =>
        cases a.config.generateState with
        | false => exact wrote
        | true =>
          rw [← command_reach launch command sidecar reached] at wrote
          simp only [if_true, Act.bind_exact]
          rcases ran : command.run launch sidecar reached with ⟨fault | ended, last⟩ <;>
            rw [ran] at wrote <;> exact wrote

theorem drop_reach (a : Adaptor ο) (host : Host ω) :
    (a.drop host).hub.reach = (a.releaseProcessor host).hub.reach := by
  cases empty : a.steps.isEmpty with
  | true => rw [drop, empty, if_pos rfl]
  | false =>
    simp only [drop, empty, Bool.false_eq_true, if_false, releaseProcessor]
    cases a.processor with
    | none => rfl
    | some id => exact host.hub.release_note _ id

end Adaptor

def Adaptor.released (a : Adaptor ο) : List (Event ω) :=
  (a.processor.map fun id => .use id .drop).toList

inductive Site.Moves : List (Event ω) → Site ο ω → Site ο ω → Prop where
  | shared (p : Processor ω) : Moves [.share p] site
      {site.withHub (site.hub.share (p.watched site.hub.shared.length)).2 with
        loose := (site.hub.share (p.watched site.hub.shared.length)).1 :: site.loose}
  | cloned {id : ProcessorId} (held : id ∈ site.loose) : Moves [.use id .clone] site
      {site.withHub (site.hub.clone id) with loose := id :: site.loose}
  | dropped {id : ProcessorId} (held : id ∈ site.loose) : Moves [.use id .drop] site
      {site.withHub (site.hub.release id) with loose := site.loose.erase id}
  | handed {id : ProcessorId} (held : id ∈ site.loose) (frame : Frame) :
      Moves [.use id (.coProcess frame)] site (site.withHub (Hub.coProcess id frame site.hub).2)
  | stopped {id : ProcessorId} (held : id ∈ site.loose) : Moves [.use id .shutdown] site
      (site.withHub (site.hub.shutdown id).2)
  | opened (fresh : a.processor = none) : Moves [] site {site with adaptors := a :: site.adaptors}
  | attached {id : ProcessorId} (held : id ∈ site.loose)
      (there : site.adaptors = before ++ a :: after) :
      Moves a.released site ⟨(a.attach id site.host).2, site.loose.erase id,
        before ++ (a.attach id site.host).1 :: after⟩
  | changed (there : site.adaptors = before ++ a :: after) (same : next.processor = a.processor) :
      Moves [] site {site with adaptors := before ++ next :: after}
  | lent {id : ProcessorId} (member : a ∈ site.adaptors) (attached : a.processor = some id)
      (frame : Frame) : Moves [.use id (.coProcess frame)] site
      (site.withHub (Hub.coProcess id frame site.hub).2)
  | finished (there : site.adaptors = before ++ a :: after) (launch : Launcher) :
      Moves a.released site ⟨(a.finish launch site.host).2, site.loose, before ++ after⟩
  | left (there : site.adaptors = before ++ a :: after) :
      Moves a.released site ⟨a.drop site.host, site.loose, before ++ after⟩
  | elsewhere (shared : later.hub.shared = site.hub.shared)
      (log : later.hub.outside.2 = site.log) : Moves [] site {site with host := later}

inductive Site.Runs : List (Event ω) → Site ο ω → Prop where
  | opened (files : Files) (outside : ω) : Runs [] ⟨⟨files, .initial (outside, [])⟩, [], []⟩
  | moved (runs : Runs events site) (moves : Moves more site next) : Runs (events ++ more) next

-- The calls account for the hub, and for all who hold a handle.
structure Site.Accords (events : List (Event ω)) (site : Site ο ω) : Prop where
  traced : Event.Traced events
  follows : Follows (Event.lives events) site.hub
  held : ∀ id, site.holders id = ((Event.lives events)[id]?.map (·.handles)).getD 0

namespace Site.Accords
variable {events : List (Event ω)} {site next : Site ο ω}

theorem initial (files : Files) (outside : ω) :
    Accords (ο := ο) [] ⟨⟨files, .initial (outside, [])⟩, [], []⟩ :=
  ⟨.none, .initial outside, fun _ => rfl⟩

theorem there {id : ProcessorId} (accords : Accords events site) (held : 0 < site.holders id) :
    ∃ life, (Event.lives events)[id]? = some life ∧ life.handles = site.holders id := by
  have handles := accords.held id
  cases found : (Event.lives events)[id]? with
  | none =>
    rw [found] at handles
    exact absurd handles (Nat.ne_of_gt held)
  | some life =>
    rw [found] at handles
    exact ⟨life, rfl, handles.symm⟩

theorem still (accords : Accords events site) (shared : next.hub.shared = site.hub.shared)
    (log : next.log = site.log) (holders : ∀ id, next.holders id = site.holders id) :
    Accords (events ++ []) next := by
  rw [List.append_nil]
  exact ⟨accords.traced, accords.follows.onward shared log,
    fun id => (holders id).trans (accords.held id)⟩

theorem used {act : Use} {id : ProcessorId} (accords : Accords events site)
    (held : 0 < site.holders id)
    (reached : next.hub.reach = (Event.perform site.hub (.use id act)).reach)
    (holders : ∀ other, next.holders other =
      if other = id then act.counted (site.holders id) else site.holders other) :
    Accords (events ++ [.use id act]) next := by
  obtain ⟨life, there, handles⟩ := accords.there held
  obtain ⟨shared, outside⟩ := Prod.mk.inj reached
  have positive : 0 < life.handles := handles ▸ held
  have performed : Follows ((Event.lives events).modify id (·.after act)) _ :=
    accords.follows.use there positive
  have follows := performed.onward shared (congrArg Prod.snd outside)
  refine ⟨.use accords.traced act there positive, ?_, ?_⟩
  · rw [Event.lives_next]
    exact follows
  · intro other
    rw [holders, Event.lives_next, Event.record, List.getElem?_modify]
    by_cases same : id = other
    · subst same
      simp [there, Life.after, handles]
    · simp [same, Ne.symm same, accords.held]

theorem lent {act : Use} {id : ProcessorId} (accords : Accords events site)
    (kept : ∀ handles, act.counted handles = handles) (held : 0 < site.holders id)
    (reached : next.hub.reach = (Event.perform site.hub (.use id act)).reach)
    (holders : ∀ other, next.holders other = site.holders other) :
    Accords (events ++ [.use id act]) next := by
  apply accords.used held reached
  intro other
  rw [holders, kept]
  by_cases same : other = id
  · rw [if_pos same, same]
  · rw [if_neg same]

theorem shared (accords : Accords events site) (p : Processor ω)
    (hub : next.hub = Event.perform site.hub (.share p))
    (holders : ∀ other, next.holders other =
      site.holders other + if other = site.hub.shared.length then 1 else 0) :
    Accords (events ++ [.share p]) next := by
  refine ⟨.share accords.traced p, ?_, ?_⟩
  · rw [Event.lives_next, hub]
    exact accords.follows.share p
  · intro other
    rw [holders, Event.lives_next, Event.record, accords.held, accords.follows.length_eq]
    rcases Nat.lt_trichotomy other (Event.lives events).length with old | rfl | beyond
    · rw [List.getElem?_append_left old, if_neg (Nat.ne_of_lt old), Nat.add_zero]
    · simp [Life.begun]
    · rw [List.getElem?_eq_none (Nat.le_of_lt beyond), if_neg (Nat.ne_of_gt beyond),
        List.getElem?_eq_none (by simp; omega)]
      rfl

theorem released {a : Adaptor ο} (accords : Accords events site)
    (there : site.adaptors = before ++ a :: after)
    (reached : next.hub.reach = (a.releaseProcessor site.host).hub.reach)
    (holders : ∀ id, next.holders id = site.holders id - if a.processor = some id then 1 else 0) :
    Accords (events ++ a.released) next := by
  cases holds : a.processor with
  | none =>
    simp only [Adaptor.releaseProcessor, holds, reduceCtorEq, if_false, Nat.sub_zero] at reached holders
    obtain ⟨shared, outside⟩ := Prod.mk.inj reached
    simp only [Adaptor.released, holds, Option.map_none, Option.toList_none]
    exact accords.still shared (congrArg Prod.snd outside) holders
  | some id =>
    simp only [Adaptor.releaseProcessor, holds, Option.some.injEq] at reached holders
    simp only [Adaptor.released, holds, Option.map_some, Option.toList_some]
    have held : 0 < site.holders id := by
      rw [site.holders_split there, holds, if_pos rfl]
      exact Nat.succ_pos _
    apply accords.used held reached
    intro other
    rw [holders]
    by_cases same : id = other
    · simp [same, Use.counted]
    · simp [same, Ne.symm same]

theorem moved (accords : Accords events site) (moves : Moves more site next) :
    Accords (events ++ more) next := by
  have positive : ∀ {id}, id ∈ site.loose → 0 < site.holders id := fun held =>
    Nat.lt_of_lt_of_le (List.count_pos_iff.mpr held) (Nat.le_add_right _ _)
  cases moves with
  | shared p => exact accords.shared p rfl fun other => site.holders_more _ _ other
  | cloned held =>
    rename_i id
    refine accords.used (positive held) rfl fun other => (site.holders_more _ id other).trans ?_
    by_cases same : other = id
    · rw [if_pos same, if_pos same, same]
      rfl
    · rw [if_neg same, if_neg same, Nat.add_zero]
  | dropped held =>
    rename_i id
    refine accords.used (positive held) rfl fun other => (holders_fewer held _ other).trans ?_
    by_cases same : other = id
    · rw [if_pos same, if_pos same, same]
      rfl
    · rw [if_neg same, if_neg same, Nat.sub_zero]
  | handed held frame | stopped held =>
    exact accords.lent (fun _ => rfl) (positive held) rfl fun _ => rfl
  | opened fresh =>
    refine accords.still rfl rfl fun id => ?_
    simp [holders, fresh]
  | attached held there =>
    rename_i before a after id
    refine accords.released there rfl fun other => ?_
    -- The handle that is given to the adaptor is loose no more.
    have moved : (site.loose.erase id).count other + (if some id = some other then 1 else 0) =
        site.loose.count other := by
      by_cases same : other = id
      · rw [same, List.count_erase_self, if_pos rfl]
        exact Nat.sub_add_cancel (List.count_pos_iff.mpr held)
      · rw [List.count_erase_of_ne same, if_neg (by simpa using Ne.symm same), Nat.add_zero]
    rw [site.holders_split there, holders_split rfl, Nat.add_sub_cancel, Nat.add_right_comm]
    exact congrArg (· + _) moved
  | changed there same =>
    exact accords.still rfl rfl fun id => holders_same there same site.host id
  | lent member attached frame =>
    rename_i a id
    have counted : 0 < site.adaptors.countP (·.processor = some id) :=
      List.countP_pos_iff.mpr ⟨a, member, decide_eq_true attached⟩
    have held := Nat.lt_of_lt_of_le counted (Nat.le_add_left _ (site.loose.count id))
    exact accords.lent (fun _ => rfl) held rfl fun _ => rfl
  | finished there launch =>
    exact accords.released there (Adaptor.finish_reach ..) fun id => holders_without there _ id
  | left there =>
    exact accords.released there (Adaptor.drop_reach ..) fun id => holders_without there _ id
  | elsewhere shared log => exact accords.still shared log fun _ => rfl

end Site.Accords

theorem Site.runs_accord {site : Site ο ω} (runs : Runs events site) : Accords events site := by
  induction runs with
  | opened files outside => exact .initial files outside
  | moved runs moves ih => exact ih.moved moves

structure Site.Lived (events : List (Event ω)) (site : Site ο ω) (id : ProcessorId)
    (p : Processor ω) : Prop where
  handles : site.hub.handleCount id = site.holders id
  active : site.hub.isActive id = true ↔ site.finalized id = 0
  once : site.finalized id ≤ 1
  ended : site.finalized id = 1 ↔ .use id .shutdown ∈ events ∨ site.holders id = 0
  -- Of the frames of all calls, those before the end, and the end behind them.
  reached : ∃ frames, frames <+: Event.handed id events ∧
    (site.finalized id = 0 → frames = Event.handed id events) ∧
    site.log.filter (fun reach => reach.id = id) =
      frames.map (.frame id) ++ if site.finalized id = 0 then [] else [.finalized id]
  handed : site.finalized id = 0 → ∀ frame, Hub.coProcess id frame site.hub =
    ((p.coProcess frame site.hub.outside.1).1, {site.hub with
      outside := ((p.coProcess frame site.hub.outside.1).2, site.log ++ [.frame id frame])})
  refused : site.finalized id = 1 → ∀ frame, Hub.coProcess id frame site.hub =
    (.error (.error .processorShutDown), site.hub)
  shutdown : ((site.hub.shutdown id).1 = true ↔ site.finalized id = 0) ∧
    (site.hub.shutdown id).2.outside.2 =
      site.log ++ if site.finalized id = 0 then [.finalized id] else []

-- After any calls of any holders: a consumer was finalized once if it was shut down or has no holder
-- left, and otherwise not at all. Before its end every frame that was handed over has reached it, in
-- the order of the calls, and it is the consumer itself that answers; behind its end nothing reaches it.
theorem Site.consumer_lived {events : List (Event ω)} {site : Site ο ω} {id : ProcessorId}
    {p : Processor ω} (runs : Runs events site) (made : (Event.made events)[id]? = some p) :
    Lived events site id p := by
  obtain ⟨traced, follows, held⟩ := runs_accord runs
  obtain ⟨life, there, rfl⟩ := Event.made_there made
  obtain ⟨stopped, earlier, all⟩ := (Event.traced_told traced).1 id life there
  have finalized : site.finalized id = if life.ended then 1 else 0 := follows.finalized_exact there
  have handles : site.holders id = life.handles := by
    rw [held, there]
    rfl
  have ended : life.ended = true ↔ .use id .shutdown ∈ events ∨ site.holders id = 0 := by
    rw [← stopped, handles, Life.ended, Bool.or_eq_true, decide_eq_true_iff]
  have active := follows.active_exact there
  have handed := follows.coProcess_exact there
  have log : site.log.filter (fun reach => reach.id = id) = _ := follows.log id
  obtain ⟨stops, -, after⟩ := follows.shutdown_exact there
  rw [there, Option.map_some, Option.getD_some, Life.reached] at log
  cases closed : life.ended with
  | true =>
    simp only [closed, if_true] at finalized active handed log stops after ended
    have some : site.finalized id ≠ 0 := finalized ▸ Nat.one_ne_zero
    exact {
      handles := (follows.handles_exact there).trans handles.symm
      active := by simp [active, finalized]
      once := Nat.le_of_eq finalized
      ended := ⟨fun _ => ended.mp trivial, fun _ => finalized⟩
      reached := ⟨life.frames, earlier, (absurd · some), by rw [log, if_neg some]⟩
      handed := (absurd · some)
      refused := fun _ => handed
      shutdown := ⟨by simp [stops, finalized], by rw [after, if_neg some]; rfl⟩ }
  | false =>
    simp only [closed, Bool.false_eq_true, if_false] at finalized active handed log stops after ended
    have none : site.finalized id ≠ 1 := finalized ▸ Nat.zero_ne_one
    exact {
      handles := (follows.handles_exact there).trans handles.symm
      active := by simp [active, finalized]
      once := finalized ▸ Nat.zero_le 1
      ended := ⟨(absurd · none), fun calls => (ended.mpr calls).elim⟩
      reached := ⟨life.frames, earlier, fun _ => all closed, by rw [log, if_pos finalized]⟩
      handed := fun _ => handed
      refused := (absurd · none)
      shutdown := ⟨by simp [stops, finalized], by rw [after, if_pos finalized]; rfl⟩ }

def Processor.fragile : Processor Unit := ⟨fun _ _ => (.error (.abort none), ()), id⟩

theorem Site.consumer_lived_fragile : ∃ site : Site UInt64 Unit,
    Runs [.share .fragile, .use 0 (.coProcess ⟨0, 0, "", []⟩), .use 0 .drop] site ∧
    (Event.made [.share .fragile, .use 0 (.coProcess ⟨0, 0, "", []⟩), .use 0 .drop])[0]? =
      some .fragile ∧
    site.holders 0 = 0 ∧ site.finalized 0 = 1 := by
  have opened : Runs (ο := UInt64) [] ⟨⟨.initial, .initial ((), [])⟩, [], []⟩ := .opened .initial ()
  have shared := opened.moved (.shared .fragile)
  have handed := shared.moved (.handed (List.mem_singleton_self 0) ⟨0, 0, "", []⟩)
  have made := handed.moved (.opened (a := ⟨{}, 1, [], none, []⟩) rfl)
  have attached := made.moved
    (.attached (List.mem_singleton_self 0) (show _ = [] ++ _ :: [] from rfl))
  have left := attached.moved (.left (show _ = [] ++ _ :: [] from rfl))
  exact ⟨_, left, rfl, rfl, (consumer_lived left rfl).ended.mpr (.inr rfl)⟩

end InSitu
