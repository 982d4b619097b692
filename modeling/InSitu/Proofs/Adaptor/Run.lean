import InSitu.Proofs.Adaptor.Visualize
namespace InSitu.Adaptor

-- What can become of an adaptor and its host. A call is told by its step. A host is shared: consumers
-- and notices may change at any time, its files only by the calls.
inductive Moves : Option Nat → Adaptor ο × Host ω → Adaptor ο × Host ω → Prop where
  | added (called : String) (within : '/' ∉ called.toList) (added : a.addGrid called = .ok next) :
      Moves none (a, host) (next, host)
  | changed (there : g ∈ a.grids) (moves : g.Moves next) : Moves none (a, host) (a.setGrid next, host)
  | attached (id : ProcessorId) : Moves none (a, host) (a.attach id host)
  | elsewhere (files : later.files = host.files) : Moves none (a, host) (a, later)
  | called (visualizes : Visualizes source step (a, host) (outcome, next)) :
      Moves (some step) (a, host) next

inductive Reached (config : Config) : Adaptor ο × Host ω → Prop where
  | opened (available : Nat) (host : Host ω) :
      Reached config (⟨config, config.workerCount available, [], none, []⟩, host)
  | moved (reached : Reached config s) (moves : Moves call s next) : Reached config next

structure Sound (a : Adaptor ο) : Prop where
  some : 0 < a.workers
  regular : ∀ g ∈ a.grids, g.Regular
  staffed : ∀ g ∈ a.grids, g.workers.length = a.workers
  within : ∀ g ∈ a.grids, '/' ∉ g.name.toList
  distinct : (a.grids.map (·.name)).Nodup

theorem Keeps.sound {a later : Adaptor ο} (keeps : a.Keeps later) (sound : a.Sound) :
    later.Sound := by
  refine ⟨keeps.workers ▸ sound.some, keeps.regular, ?_, keeps.within sound.within,
    keeps.names ▸ sound.distinct⟩
  intro g member
  obtain ⟨before, there, same⟩ := keeps.like member
  have staff : g.workers.length = before.workers.length := congrArg (·.1.staff) same
  rw [staff, keeps.workers]
  exact sound.staffed before there

end InSitu.Adaptor
