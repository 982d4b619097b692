import InSitu.Proofs.Files.Names
import InSitu.Proofs.Grid.Output
import InSitu.Proofs.PieceIndex.Writing
namespace InSitu

-- What a worker has left to do for its piece, or what came of it.
inductive Errand where
  | create (piece : Piece)
  | fill (piece : Piece)
  | done (outcome : Outcome ExportError Path)

namespace Errand

def start : Outcome ExportError Piece → Errand
  | .ok piece => .create piece
  | .error failure => .done (.error failure)

def path (directory : Path) (piece : Piece) : Path :=
  directory.join (Piece.fileName piece.grid piece.step piece.worker)

def turn (directory : Path) (files : Files) : Errand → Errand × Files
  | .create piece =>
    match files.create (path directory piece) with
    | .ok reached => (.fill piece, reached)
    | .error kind => (.done (.error (.error (.io (path directory piece) kind))), files)
  | .fill piece =>
    match files.fill (path directory piece) (.text piece.text) with
    | .ok reached => (.done (.ok (path directory piece)), reached)
    | .error kind => (.done (.error (.error (.io (path directory piece) kind))), files)
  | .done outcome => (.done outcome, files)

end Errand

inductive Turns (directory : Path) : List Errand → Files → List Errand → Files → Prop where
  | rest : Turns directory errands files errands files
  | turn (next : errands[number]? = some errand)
      (onward : Turns directory (errands.set number (errand.turn directory files).1)
        (errand.turn directory files).2 last reached) : Turns directory errands files last reached

-- One step of a worker that may fail at any point, whatever the files are. A file that is not filled
-- at once is filled in part before, and a part can be anything.
inductive Errand.Tries (directory : Path) : Errand → Files → Errand → Files → Prop where
  | created (created : files.create (path directory piece) = .ok fresh) :
      Tries directory (.create piece) files (.fill piece) fresh
  | part (filled : files.fill (path directory piece) content = .ok reached) :
      Tries directory (.fill piece) files (.fill piece) reached
  | filled (filled : files.fill (path directory piece) (.text piece.text) = .ok reached) :
      Tries directory (.fill piece) files (.done (.ok (path directory piece))) reached
  | barred (piece : Piece) (failure : Failure ExportError) (files : Files) :
      Tries directory (.create piece) files (.done (.error failure)) files
  | broken (piece : Piece) (failure : Failure ExportError) (files : Files) :
      Tries directory (.fill piece) files (.done (.error failure)) files

theorem Errand.turn_tries (directory : Path) (files : Files) (errand : Errand) :
    errand.turn directory files = (errand, files) ∨ errand.Tries directory files
      (errand.turn directory files).1 (errand.turn directory files).2 := by
  cases errand with
  | done outcome => exact .inl rfl
  | create piece =>
    cases created : files.create (path directory piece) with
    | error kind =>
      simp only [turn, created]
      exact .inr (.barred piece _ files)
    | ok fresh =>
      simp only [turn, created]
      exact .inr (.created created)
  | fill piece =>
    cases filled : files.fill (path directory piece) (.text piece.text) with
    | error kind =>
      simp only [turn, filled]
      exact .inr (.broken piece _ files)
    | ok reached =>
      simp only [turn, filled]
      exact .inr (.filled filled)

inductive Runs (directory : Path) : List Errand → Files → List Errand → Files → Prop where
  | rest : Runs directory errands files errands files
  | step (next : errands[number]? = some errand) (tries : errand.Tries directory files after between)
      (onward : Runs directory (errands.set number after) between last reached) :
      Runs directory errands files last reached

theorem Turns.runs (turns : Turns directory errands files last reached) :
    Runs directory errands files last reached := by
  induction turns with
  | rest => exact .rest
  | @turn errands number errand _ _ files next onward ih =>
    rcases errand.turn_tries directory files with same | tries
    · have unmoved : errands.set number errand = errands := by
        obtain ⟨inside, rfl⟩ := List.getElem?_eq_some_iff.mp next
        exact List.set_getElem_self inside
      rwa [same, unmoved] at ih
    · exact .step next tries ih

theorem Errand.among_next (before after : List Errand) (errand : Errand) :
    (before ++ errand :: after)[before.length]? = some errand := by
  rw [List.getElem?_append_right (Nat.le_refl _), Nat.sub_self]
  rfl

theorem Errand.among_set (before after : List Errand) (errand other : Errand) :
    (before ++ errand :: after).set before.length other = before ++ other :: after := by
  rw [List.set_append_right _ _ (Nat.le_refl _), Nat.sub_self]
  rfl

namespace Turns

theorem trans (before : Turns directory errands files middle between)
    (after : Turns directory middle between last reached) :
    Turns directory errands files last reached := by
  induction before with
  | rest => exact after
  | turn next onward ih => exact .turn next (ih after)

theorem alone (before after : List Errand) (built : Outcome ExportError Piece) :
    Turns directory (before ++ Errand.start built :: after) files
      (before ++ .done (Grid.writeWorker directory built files).1 :: after)
      (Grid.writeWorker directory built files).2 := by
  cases built with
  | error failure => exact .rest
  | ok piece =>
    refine .turn (Errand.among_next ..) ?_
    rw [Errand.among_set]
    show Turns directory (before ++ (Errand.turn directory files (.create piece)).1 :: after)
      (Errand.turn directory files (.create piece)).2 _ _
    simp only [Grid.writeWorker, Piece.write, Act.bind_exact, onFile, Errand.turn, Errand.path]
    cases created : files.create (directory.join (Piece.fileName piece.grid piece.step piece.worker)) with
    | error kind => exact .rest
    | ok fresh =>
      refine .turn (Errand.among_next ..) ?_
      rw [Errand.among_set]
      simp only [Errand.turn, Errand.path]
      cases filled : fresh.fill (directory.join (Piece.fileName piece.grid piece.step piece.worker))
          (.text piece.text) with
      | error kind => exact .rest
      | ok reached => exact .rest

end Turns

-- The order of the workers is one of the orders.
theorem Grid.writeBuilt_turns (directory : Path) (built : List (Outcome ExportError Piece))
    (files : Files) (before : List Errand) :
    Turns directory (before ++ built.map .start) files
      (before ++ (Grid.writeBuilt directory built files).1.map .done)
      (Grid.writeBuilt directory built files).2 := by
  induction built generalizing files before with
  | nil => exact .rest
  | cons first rest ih =>
    have others := ih (Grid.writeWorker directory first files).2
      (before ++ [.done (Grid.writeWorker directory first files).1])
    simp only [List.append_assoc, List.singleton_append] at others
    exact (Turns.alone before (rest.map .start) first).trans others

namespace Errand

def Own (directory : Path) (built : Outcome ExportError Piece) (name : PathName) : Prop :=
  ∃ piece, built = .ok piece ∧ (path directory piece).called? = some name

-- How far a worker has come with what it had built.
def Follows (directory : Path) (files : Files) (built : Outcome ExportError Piece) : Errand → Prop
  | .create piece => built = .ok piece
  | .fill piece => built = .ok piece ∧
      ∃ l old, files.spot? (path directory piece) = some l ∧ files.node? l = some (.file old)
  | .done (.ok _) => ∃ piece, built = .ok piece ∧
      files.readText (path directory piece) = .ok piece.text
  | .done (.error _) => True

theorem start_follows (directory : Path) (files : Files) (built : Outcome ExportError Piece) :
    (start built).Follows directory files built := by
  cases built with
  | error failure => trivial
  | ok piece => rfl

theorem Tries.follows {errand after : Errand} (tries : errand.Tries directory files after reached)
    (follows : errand.Follows directory files built) :
    after.Follows directory reached built ∧ Files.Keeps (Own directory built) files reached := by
  -- Only files that are called like its own may differ.
  have mine : ∀ {piece name}, built = .ok piece → (path directory piece).called? = some name →
      ∀ other, other = name → Own directory built other := by
    rintro piece name same called other rfl
    exact ⟨piece, same, called⟩
  cases tries with
  | barred | broken => exact ⟨trivial, .same⟩
  | created created =>
    obtain ⟨l, name, called, spot, there, keeps⟩ := Files.create_keeps created
    exact ⟨⟨follows, l, _, spot, there⟩, keeps.widen (mine follows called)⟩
  | @part piece _ _ content filled =>
    obtain ⟨same, l, old, spot, there⟩ := follows
    obtain ⟨base, name, called, -, rfl⟩ := Files.spot_exact.mp spot
    have keeps := Files.fill_keeps called filled
    cases (Files.fill_there spot there content).symm.trans filled
    refine ⟨⟨same, _, content, keeps.spot spot, ?_⟩, keeps.widen (mine same called)⟩
    rw [Files.node_put files _ (by simp), if_pos rfl]
  | @filled piece _ _ filled =>
    obtain ⟨same, l, old, spot, there⟩ := follows
    obtain ⟨base, name, called, -, -⟩ := Files.spot_exact.mp spot
    obtain ⟨later, wrote, reads⟩ := Files.fill_reads spot there piece.text
    cases wrote.symm.trans filled
    exact ⟨⟨piece, same, reads⟩, (Files.fill_keeps called filled).widen (mine same called)⟩

theorem Follows.onward {errand : Errand} (follows : errand.Follows directory files built)
    (keeps : Files.Keeps differing files later)
    (apart : ∀ name, Own directory built name → ¬ differing name) :
    errand.Follows directory later built := by
  cases errand with
  | create piece => exact follows
  | fill piece =>
    obtain ⟨same, l, old, spot, there⟩ := follows
    have unchanged := keeps.node spot fun name called => apart name ⟨piece, same, called⟩
    exact ⟨same, l, old, keeps.spot spot, unchanged.trans there⟩
  | done outcome =>
    cases outcome with
    | error failure => trivial
    | ok path =>
      obtain ⟨piece, same, reads⟩ := follows
      exact ⟨piece, same, keeps.reads (fun name called => apart name ⟨piece, same, called⟩) reads⟩

theorem started {built : List (Outcome ExportError Piece)} {number : Nat} {errand : Errand}
    (placed : (built.map start)[number]? = some errand) :
    ∃ mine, built[number]? = some mine ∧ errand = start mine := by
  rw [List.getElem?_map] at placed
  obtain ⟨mine, there, rfl⟩ := Option.map_eq_some_iff.mp placed
  exact ⟨mine, there, rfl⟩

theorem ended {outcomes : List (Outcome ExportError Path)} {number : Nat}
    (placed : outcomes[number]? = some outcome) :
    (outcomes.map done)[number]? = some (.done outcome) := by
  rw [List.getElem?_map, placed]
  rfl

structure Team (directory : Path) (files : Files) (built : List (Outcome ExportError Piece))
    (errands : List Errand) : Prop where
  length_eq : errands.length = built.length
  follows : ∀ (number : Nat) errand mine, errands[number]? = some errand →
    built[number]? = some mine → errand.Follows directory files mine
  apart : ∀ (number other : Nat) mine yours name, built[number]? = some mine →
    built[other]? = some yours → Own directory mine name → Own directory yours name →
    number = other

theorem each_set {valid : Nat → Errand → Prop} {errands : List Errand}
    (next : errands[number]? = some errand) (came : valid number after)
    (others : ∀ (other : Nat) moved, other ≠ number → errands[other]? = some moved →
      valid other moved) :
    ∀ (other : Nat) moved, (errands.set number after)[other]? = some moved → valid other moved := by
  intro other moved placed
  by_cases same : number = other
  · subst same
    rw [List.getElem?_set_self (List.getElem?_eq_some_iff.mp next).1] at placed
    cases placed
    exact came
  · rw [List.getElem?_set_ne same] at placed
    exact others other moved (Ne.symm same) placed

theorem Team.step {after : Errand} (team : Team directory files built errands)
    (next : errands[number]? = some errand) (tries : errand.Tries directory files after later) :
    Team directory later built (errands.set number after) ∧
      Files.Keeps (fun name => ∃ mine ∈ built, Own directory mine name) files later := by
  have inside := (List.getElem?_eq_some_iff.mp next).1
  obtain ⟨mine, there⟩ : ∃ mine, built[number]? = some mine :=
    ⟨_, List.getElem?_eq_getElem (team.length_eq ▸ inside)⟩
  obtain ⟨follows, keeps⟩ := tries.follows (team.follows number errand mine next there)
  -- The worker whose step it is came on; to any other, only a name that is not its own differs.
  have onward : ∀ (other : Nat) moved, (errands.set number after)[other]? = some moved →
      ∀ yours, built[other]? = some yours → moved.Follows directory later yours := by
    refine each_set next ?_ ?_
    · intro yours theirs
      cases there.symm.trans theirs
      exact follows
    · intro other moved different placed yours theirs
      apply (team.follows other moved yours placed theirs).onward keeps
      intro name own shared
      exact different (team.apart other number yours mine name theirs there own shared)
  exact ⟨⟨List.length_set.trans team.length_eq,
      fun other moved yours placed => onward other moved placed yours, team.apart⟩,
    keeps.widen fun name own => ⟨mine, List.mem_of_getElem? there, own⟩⟩

theorem Team.runs (team : Team directory files built errands)
    (runs : Runs directory errands files last reached) :
    Team directory reached built last ∧
      Files.Keeps (fun name => ∃ mine ∈ built, Own directory mine name) files reached := by
  induction runs with
  | rest => exact ⟨team, .same⟩
  | step next tries onward ih =>
    obtain ⟨after, keeps⟩ := team.step next tries
    obtain ⟨done, later⟩ := ih after
    exact ⟨done, keeps.trans later⟩

theorem Team.reads {paths : List Path} {number : Nat}
    (team : Team directory files built (paths.map (Errand.done ∘ .ok)))
    (there : built[number]? = some mine) :
    ∃ piece, mine = .ok piece ∧ files.readText (path directory piece) = .ok piece.text := by
  have inside := (List.getElem?_eq_some_iff.mp there).1
  rw [← team.length_eq, List.length_map] at inside
  refine team.follows number (.done (.ok paths[number])) mine ?_ there
  rw [List.getElem?_map, List.getElem?_eq_getElem inside]
  rfl

end Errand

namespace Grid

def built (objects : List ο) (step : Nat) (time : Float) (g : Grid ο) :
    List (Outcome ExportError Piece) :=
  g.workers.mapIdx fun number w => (g.workerPiece objects step time number w).1

-- The pieces in any order of turns, and then the index, unless a worker failed.
inductive WritesPieces (objects : List ο) (directory : Path) (step : Nat) (time : Float) (g : Grid ο)
    (files : Files) : Outcome ExportError Nat × Grid ο × Files → Prop where
  | failed (turns : Turns directory ((g.built objects step time).map .start) files
        (outcomes.map .done) written)
      (joined : joinAll (.workerAborted g.name) outcomes = .error fault) :
      WritesPieces objects directory step time g files
        (.error fault, g.collected objects, written)
  | unlisted (turns : Turns directory ((g.built objects step time).map .start) files
        (outcomes.map .done) written)
      (joined : joinAll (.workerAborted g.name) outcomes = .ok paths)
      (index : PieceIndex.write directory g.name step time g.workers.length written =
        (.error fault, listed)) :
      WritesPieces objects directory step time g files (.error fault, g.collected objects, listed)
  | listed (turns : Turns directory ((g.built objects step time).map .start) files
        (outcomes.map .done) written)
      (joined : joinAll (.workerAborted g.name) outcomes = .ok paths)
      (index : PieceIndex.write directory g.name step time g.workers.length written =
        (.ok path, listed)) :
      WritesPieces objects directory step time g files
        (.ok g.workers.length, g.collected objects, listed)

theorem pieces_forked (objects : List ο) (step : Nat) (time : Float) (g : Grid ο) :
    forked (g.workerPiece objects step time) (List.range g.workers.length) g.workers =
      (g.built objects step time, (g.collected objects).workers) := by
  have numbered := forked_exact (g.workerPiece (ε := ExportError) objects step time) id g.workers
  rw [List.map_id] at numbered
  rw [numbered]
  refine Prod.ext rfl (List.ext_getElem? fun number => ?_)
  simp [collected, workerPiece]

theorem writePieces_sound (objects : List ο) (directory : Path) (step : Nat) (time : Float)
    (g : Grid ο) (files : Files) : WritesPieces objects directory step time g files
      (g.writePieces objects directory step time files) := by
  have turns := writeBuilt_turns directory (g.built objects step time) files []
  unfold writePieces
  simp only [pieces_forked]
  cases joined : joinAll (.workerAborted g.name)
      (writeBuilt directory (g.built objects step time) files).1 with
  | error fault => exact .failed turns joined
  | ok paths =>
    rcases index : PieceIndex.write directory g.name step time g.workers.length
      (writeBuilt directory (g.built objects step time) files).2 with ⟨fault | path, listed⟩
    · exact .unlisted turns joined index
    · exact .listed turns joined index

@[simp]
theorem built_length (objects : List ο) (step : Nat) (time : Float) (g : Grid ο) :
    (g.built objects step time).length = g.workers.length :=
  List.length_mapIdx

theorem built_exact {g : Grid ο} (there : (g.built objects step time)[number]? = some mine) :
    ∃ w, g.workers[number]? = some w ∧ (g.workerPiece objects step time number w).1 = mine := by
  simp only [built, List.getElem?_mapIdx] at there
  obtain ⟨w, found, rfl⟩ := Option.map_eq_some_iff.mp there
  exact ⟨w, found, rfl⟩

theorem built_path {g : Grid ο} {mine : Piece}
    (there : (g.built objects step time)[number]? = some (.ok mine)) :
    Errand.path directory mine = directory.join (Piece.fileName g.name step number) := by
  obtain ⟨w, -, made⟩ := built_exact there
  obtain ⟨columns, -, rfl⟩ := Outcome.map_answer made
  rfl

theorem own_exact {g : Grid ο} {name : PathName} (within : '/' ∉ g.name.toList)
    (there : (g.built objects step time)[number]? = some mine)
    (own : Errand.Own directory mine name) :
    name = (Path.ofString (Piece.fileName g.name step number)).units := by
  obtain ⟨piece, rfl, called⟩ := own
  rw [built_path there, GridFile.called directory within (.piece number)] at called
  exact (Option.some.inj called).symm

theorem own_named {g : Grid ο} {name : PathName} (within : '/' ∉ g.name.toList)
    (member : mine ∈ g.built objects step time) (own : Errand.Own directory mine name) :
    GridFile.Named g.name step name := by
  obtain ⟨number, there⟩ := List.mem_iff_getElem?.mp member
  exact ⟨_, .piece number, own_exact within there own⟩

theorem built_team (g : Grid ο) (objects : List ο) (directory : Path) (step : Nat) (time : Float)
    (files : Files) :
    Errand.Team directory files (g.built objects step time)
      ((g.built objects step time).map .start) := by
  refine ⟨List.length_map _, ?_, ?_⟩
  · intro number errand mine placed there
    obtain ⟨other, same, rfl⟩ := Errand.started placed
    cases there.symm.trans same
    exact Errand.start_follows directory files mine
  · intro number other mine yours name there theirs own shared
    obtain ⟨piece, rfl, called⟩ := own
    obtain ⟨piece', rfl, called'⟩ := shared
    rw [built_path there, GridFile.called_part directory (.piece number)] at called
    rw [built_path theirs, GridFile.called_part directory (.piece other)] at called'
    have same := GridFile.part_inj (.piece number) (.piece other)
      (Option.some.inj (called.trans called'.symm))
    exact (Piece.fileName_inj same).2.2

theorem index_named {directory : Path} {g : Grid ο} {name : PathName} (within : '/' ∉ g.name.toList)
    (called : (directory.join (PieceIndex.fileName g.name step)).called? = some name) :
    GridFile.Named g.name step name := by
  rw [GridFile.called directory within .index] at called
  exact ⟨_, .index, (Option.some.inj called).symm⟩

-- Whatever comes of it, only files of this grid at this step differ.
theorem writes_keep {g : Grid ο} (within : '/' ∉ g.name.toList)
    (writes : WritesPieces objects directory step time g files result) :
    Files.Keeps (GridFile.Named g.name step) files result.2.2 := by
  have pieces : ∀ {last written}, Turns directory ((g.built objects step time).map .start) files
      last written → Files.Keeps (GridFile.Named g.name step) files written := by
    intro last written turns
    apply ((built_team g objects directory step time files).runs turns.runs).2.widen
    intro name own
    obtain ⟨mine, member, own⟩ := own
    exact own_named within member own
  have lists : ∀ {outcome written listed},
      PieceIndex.write directory g.name step time g.workers.length written = (outcome, listed) →
      Files.Keeps (GridFile.Named g.name step) written listed := by
    intro outcome written listed index
    rcases PieceIndex.write_exact directory g.name step time g.workers.length written with
      ⟨reached, name, wrote, -, called, keeps⟩ | ⟨kind, refused⟩
    · cases index.symm.trans wrote
      exact keeps.widen fun other same => same ▸ index_named within called
    · cases index.symm.trans refused
      exact .same
  cases writes with
  | failed turns joined => exact pieces turns
  | unlisted turns joined index => exact (pieces turns).trans (lists index)
  | listed turns joined index => exact (pieces turns).trans (lists index)

theorem writePieces_made {g : Grid ο}
    (joined : joinAll (.workerAborted g.name)
      (writeBuilt directory (g.built objects step time) files).1 = .ok paths)
    (created : (writeBuilt directory (g.built objects step time) files).2.create
      (directory.join (PieceIndex.fileName g.name step)) = .ok fresh) :
    ∃ listed, g.writePieces objects directory step time files =
      (.ok g.workers.length, g.collected objects, listed) := by
  obtain ⟨listed, name, index, -⟩ := PieceIndex.write_made created time g.workers.length
  refine ⟨listed, ?_⟩
  unfold writePieces
  simp only [pieces_forked, joined, index]
  rfl

structure Filed (objects : List ο) (directory : Path) (step : Nat) (time : Float) (files : Files)
    (g : Grid ο) : Prop where
  index : files.readText (directory.join (PieceIndex.fileName g.name step)) =
    .ok (PieceIndex.listing g.name step time g.workers.length)
  pieces : ∃ plan, Partition.new? objects.length g.workers.length = .ok plan ∧
    ∀ number < g.workers.length,
      files.readText (directory.join (Piece.fileName g.name step number)) =
        .ok (g.plainPiece objects plan step time number).text

theorem writes_reads {g : Grid ο}
    (writes : WritesPieces objects directory step time g files (.ok count, next, reached)) :
    count = g.workers.length ∧
    reached.readText (directory.join (PieceIndex.fileName g.name step)) =
      .ok (PieceIndex.listing g.name step time g.workers.length) ∧
    ∀ number < g.workers.length, ∃ piece, (g.built objects step time)[number]? = some (.ok piece) ∧
      reached.readText (directory.join (Piece.fileName g.name step number)) = .ok piece.text := by
  cases writes with
  | listed turns joined index =>
    obtain ⟨team, -⟩ := (built_team g objects directory step time files).runs turns.runs
    rw [joinAll_answers.mp joined, List.map_map] at team
    rcases PieceIndex.write_exact directory g.name step time g.workers.length _ with
      ⟨listed, name, wrote, reads, called, keeps⟩ | ⟨kind, refused⟩
    · cases index.symm.trans wrote
      refine ⟨rfl, reads, ?_⟩
      intro number inside
      have mine : (g.built objects step time)[number]? =
          some (g.workerPiece objects step time number g.workers[number]).1 := by
        simp [built, List.getElem?_eq_getElem inside]
      obtain ⟨piece, made, content⟩ := team.reads mine
      rw [made] at mine
      rw [built_path mine] at content
      refine ⟨piece, mine, keeps.reads ?_ content⟩
      -- The index is written behind the pieces and under another name.
      rintro other own rfl
      exact GridFile.piece_apart own called
    · cases index.symm.trans refused

theorem Filed.onward {g : Grid ο} (filed : g.Filed objects directory step time files)
    (within : '/' ∉ g.name.toList) (keeps : Files.Keeps differing files later)
    (apart : ∀ name, GridFile.Named g.name step name → ¬ differing name) :
    g.Filed objects directory step time later := by
  have untouched : ∀ {file content}, GridFile g.name step file →
      files.readText (directory.join file) = .ok content →
      later.readText (directory.join file) = .ok content := by
    intro file content mine reads
    refine keeps.reads ?_ reads
    intro name own
    rw [GridFile.called directory within mine] at own
    exact apart name ⟨file, mine, (Option.some.inj own).symm⟩
  obtain ⟨plan, planned, pieces⟩ := filed.pieces
  refine ⟨untouched .index filed.index, plan, planned, ?_⟩
  intro number inside
  exact untouched (.piece number) (pieces number inside)

-- What the files depend on. Neither an update nor a read changes it.
def face (g : Grid ο) : Shape ο × Option AttributeSet := (g.shape, g.selection)

theorem Filed.face {g next : Grid ο} (filed : g.Filed objects directory step time files)
    (same : next.face = g.face) : next.Filed objects directory step time files := by
  obtain ⟨shape, selection⟩ := Prod.mk.inj same
  obtain ⟨name, columns, staff⟩ := Shape.mk.inj shape
  have plain : ∀ plan number, next.plainPiece objects plan step time number =
      g.plainPiece objects plan step time number := by
    intro plan number
    simp only [plainPiece, chosen, name, columns, selection]
  obtain ⟨index, plan, planned, pieces⟩ := filed
  refine ⟨?_, plan, ?_, ?_⟩
  · rw [name, staff]
    exact index
  · rw [staff]
    exact planned
  · intro number inside
    rw [name, plain]
    exact pieces number (staff ▸ inside)

theorem collected_face {g : Grid ο} (regular : g.Regular) (shown : List ο) :
    (g.collected shown).face = g.face :=
  Prod.ext (collected_regular regular shown).2 rfl

theorem writes_face {g : Grid ο} (regular : g.Regular)
    (writes : WritesPieces objects directory step time g files result) :
    result.2.1.Regular ∧ result.2.1.face = g.face := by
  have reached : result.2.1 = g.collected objects := by cases writes <;> rfl
  rw [reached]
  exact ⟨(collected_regular regular objects).1, collected_face regular objects⟩

end Grid
end InSitu
