import InSitu.Proofs.Grid.Joining
namespace InSitu

theorem Errand.Tries.steady {errand after : Errand}
    (tries : errand.Tries directory files after reached) : Files.Steady files reached := by
  cases tries with
  | created created => exact .create created
  | part filled | filled filled => exact .fill filled
  | barred | broken => exact .same

theorem Runs.steady (runs : Runs directory errands files last reached) :
    Files.Steady files reached := by
  induction runs with
  | rest => exact .same
  | step next tries onward ih => exact tries.steady.trans ih

theorem Runs.trans (before : Runs directory errands files middle between)
    (after : Runs directory middle between last reached) :
    Runs directory errands files last reached := by
  induction before with
  | rest => exact after
  | step next tries onward ih => exact .step next tries (ih after)

namespace Errand

def Reports (directory : Path) (built : Outcome ExportError Piece) : Errand → Prop
  | .create piece | .fill piece => built = .ok piece
  | .done (.ok place) => ∃ piece, built = .ok piece ∧ place = path directory piece
  | .done (.error failure) => ∀ earlier, built = .error earlier → failure = earlier

theorem start_reports (directory : Path) (built : Outcome ExportError Piece) :
    (start built).Reports directory built := by
  cases built with
  | error failure =>
    rintro earlier ⟨⟩
    rfl
  | ok piece => rfl

theorem Tries.reports {errand after : Errand} (tries : errand.Tries directory files after reached)
    (reports : errand.Reports directory built) : after.Reports directory built := by
  cases tries with
  | created | part => exact reports
  | filled => exact ⟨_, reports, rfl⟩
  | barred | broken =>
    cases reports
    exact nofun

end Errand

theorem Runs.reports {built : List (Outcome ExportError Piece)}
    (runs : Runs directory errands files last reached)
    (before : ∀ (number : Nat) errand, errands[number]? = some errand →
      ∃ mine, built[number]? = some mine ∧ errand.Reports directory mine) :
    ∀ (number : Nat) errand, last[number]? = some errand →
      ∃ mine, built[number]? = some mine ∧ errand.Reports directory mine := by
  induction runs with
  | rest => exact before
  | step next tries onward ih =>
    obtain ⟨mine, there, reports⟩ := before _ _ next
    exact ih (Errand.each_set next ⟨mine, there, tries.reports reports⟩
      fun other moved _ placed => before other moved placed)

theorem Runs.reported {built : List (Outcome ExportError Piece)}
    {outcomes : List (Outcome ExportError Path)} {number : Nat}
    (runs : Runs directory (built.map .start) files (outcomes.map .done) written)
    (placed : outcomes[number]? = some outcome) :
    ∃ mine, built[number]? = some mine ∧ (Errand.done outcome).Reports directory mine := by
  refine runs.reports ?_ number _ (Errand.ended placed)
  intro number errand placed
  obtain ⟨mine, there, rfl⟩ := Errand.started placed
  exact ⟨mine, there, Errand.start_reports directory mine⟩

theorem Runs.alone (directory : Path) (files : Files) (before after : List Errand)
    (built : Outcome ExportError Piece) (fails : Prop) :
    ∃ (outcome : Outcome ExportError Path) (reached : Files),
      Runs directory (before ++ Errand.start built :: after) files
        (before ++ .done outcome :: after) reached ∧
      (fails → ∃ failure, outcome = .error failure) := by
  by_cases chosen : fails
  · cases built with
    | error failure => exact ⟨.error failure, files, .rest, fun _ => ⟨failure, rfl⟩⟩
    | ok piece =>
      refine ⟨.error (.abort none), files, ?_, fun _ => ⟨.abort none, rfl⟩⟩
      refine .step (Errand.among_next before after (.create piece)) (.barred piece (.abort none) files) ?_
      rw [Errand.among_set]
      exact .rest
  · exact ⟨_, _, (Turns.alone before after built).runs, fun fails => absurd fails chosen⟩

theorem Runs.any (directory : Path) (fails : Nat → Prop) (built : List (Outcome ExportError Piece))
    (files : Files) (before : List Errand) :
    ∃ (outcomes : List (Outcome ExportError Path)) (written : Files),
      Runs directory (before ++ built.map .start) files (before ++ outcomes.map .done) written ∧
      ∀ number < built.length, fails (before.length + number) →
        ∃ failure, outcomes[number]? = some (.error failure) := by
  induction built generalizing files before with
  | nil => exact ⟨[], files, .rest, nofun⟩
  | cons mine rest ih =>
    obtain ⟨outcome, between, first, failed⟩ :=
      Runs.alone directory files before (rest.map .start) mine (fails before.length)
    obtain ⟨others, written, behind, each⟩ := ih between (before ++ [.done outcome])
    simp only [List.append_assoc, List.singleton_append] at behind
    refine ⟨outcome :: others, written, first.trans behind, ?_⟩
    intro number inside chosen
    cases number with
    | zero =>
      obtain ⟨failure, rfl⟩ := failed chosen
      exact ⟨failure, rfl⟩
    | succ number =>
      refine each number (Nat.lt_of_succ_lt_succ inside) ?_
      rwa [List.length_append, List.length_singleton, Nat.add_assoc, Nat.add_comm 1]

namespace Errand

-- What comes of a worker that only the files can refuse. It fails if it was aborted before it had a
-- piece or if its file cannot be created, and for no other cause.
inductive Settles (directory : Path) (files : Files) :
    Outcome ExportError Piece → Outcome ExportError Path → Prop where
  | aborted (failure : Failure ExportError) :
      Settles directory files (.error failure) (.error failure)
  | refused (refused : files.create (path directory piece) = .error kind) (told : IoKind) :
      Settles directory files (.ok piece) (.error (.error (.io (path directory piece) told)))
  | written (created : files.create (path directory piece) = .ok fresh) :
      Settles directory files (.ok piece) (.ok (path directory piece))

theorem Settles.through (settles : Settles directory files (.ok piece) outcome)
    (created : files.create (path directory piece) = .ok fresh) :
    outcome = .ok (path directory piece) := by
  cases settles with
  | refused refused => cases created.symm.trans refused
  | written => rfl

-- The files are those before the call.
def Heads (directory : Path) (files : Files) (built : Outcome ExportError Piece) : Errand → Prop
  | .create piece => built = .ok piece
  | .fill piece => built = .ok piece ∧ ∃ fresh, files.create (path directory piece) = .ok fresh
  | .done outcome => Settles directory files built outcome

theorem start_heads (directory : Path) (files : Files) (built : Outcome ExportError Piece) :
    (start built).Heads directory files built := by
  cases built with
  | error failure => exact .aborted failure
  | ok piece => rfl

theorem turn_heads {errand : Errand} (follows : errand.Follows directory now built)
    (steady : Files.Steady files now) (heads : errand.Heads directory files built) :
    (errand.turn directory now).1.Heads directory files built := by
  cases errand with
  | done outcome => exact heads
  | create piece =>
    cases heads
    cases created : now.create (path directory piece) with
    | ok fresh =>
      simp only [turn, created]
      exact ⟨rfl, steady.symm.creates created⟩
    | error told =>
      simp only [turn, created]
      cases before : files.create (path directory piece) with
      | error kind => exact .refused before told
      | ok fresh =>
        obtain ⟨next, creates⟩ := steady.creates before
        cases created.symm.trans creates
  | fill piece =>
    obtain ⟨rfl, fresh, created⟩ := heads
    obtain ⟨-, l, old, spot, there⟩ := follows
    simp only [turn, Files.fill_there spot there]
    exact .written created

end Errand

theorem Turns.heads {built : List (Outcome ExportError Piece)}
    (turns : Turns directory errands now last reached)
    (team : Errand.Team directory files built start) (before : Runs directory start files errands now)
    (heads : ∀ (number : Nat) errand, errands[number]? = some errand →
      ∃ mine, built[number]? = some mine ∧ errand.Heads directory files mine) :
    ∀ (number : Nat) errand, last[number]? = some errand →
      ∃ mine, built[number]? = some mine ∧ errand.Heads directory files mine := by
  -- The steps so far are carried along: a worker finds its own file, and no new directory.
  induction turns with
  | rest => exact heads
  | @turn errands number errand _ _ now next onward ih =>
    obtain ⟨mine, there, came⟩ := heads number errand next
    have follows := (team.runs before).1.follows number errand mine next there
    refine ih (before.trans (Turns.turn next .rest).runs) (Errand.each_set next
      ⟨mine, there, Errand.turn_heads follows before.steady came⟩
      fun other moved _ placed => heads other moved placed)

theorem Turns.settled {built : List (Outcome ExportError Piece)}
    {outcomes : List (Outcome ExportError Path)}
    (turns : Turns directory (built.map .start) files (outcomes.map .done) written)
    (team : Errand.Team directory files built (built.map .start)) :
    List.Forall₂ (Errand.Settles directory files) built outcomes := by
  have heads := turns.heads team .rest fun number errand placed => by
    obtain ⟨mine, there, rfl⟩ := Errand.started placed
    exact ⟨mine, there, Errand.start_heads directory files mine⟩
  have size := (team.runs turns.runs).1.length_eq
  rw [List.length_map] at size
  refine List.forall₂_iff_get.mpr ⟨size.symm, ?_⟩
  intro number inside placed
  obtain ⟨mine, there, came⟩ := heads number _ (Errand.ended (List.getElem?_eq_getElem placed))
  cases there.symm.trans (List.getElem?_eq_getElem inside)
  exact came

namespace Grid

-- A call with any of these steps, and then the index, unless a worker failed. The index can fail as
-- well, and what is then under its name is left open.
inductive WritesAmid (objects : List ο) (directory : Path) (step : Nat) (time : Float) (g : Grid ο)
    (files : Files) (outcomes : List (Outcome ExportError Path)) :
    Outcome ExportError Nat × Grid ο × Files → Prop where
  | failed (runs : Runs directory ((g.built objects step time).map .start) files
        (outcomes.map .done) written)
      (joined : joinAll (.workerAborted g.name) outcomes = .error fault) :
      WritesAmid objects directory step time g files outcomes
        (.error fault, g.collected objects, written)
  | unlisted (runs : Runs directory ((g.built objects step time).map .start) files
        (outcomes.map .done) written)
      (joined : joinAll (.workerAborted g.name) outcomes = .ok paths) (fault : Failure ExportError)
      (index : Files.Keeps (fun name =>
        (directory.join (PieceIndex.fileName g.name step)).called? = some name) written listed) :
      WritesAmid objects directory step time g files outcomes
        (.error fault, g.collected objects, listed)
  | listed (runs : Runs directory ((g.built objects step time).map .start) files
        (outcomes.map .done) written)
      (joined : joinAll (.workerAborted g.name) outcomes = .ok paths)
      (index : PieceIndex.write directory g.name step time g.workers.length written =
        (.ok path, listed)) :
      WritesAmid objects directory step time g files outcomes
        (.ok g.workers.length, g.collected objects, listed)

theorem WritesPieces.amid {g : Grid ο}
    (writes : WritesPieces objects directory step time g files result) :
    ∃ outcomes, List.Forall₂ (Errand.Settles directory files) (g.built objects step time) outcomes ∧
      WritesAmid objects directory step time g files outcomes result := by
  have team := built_team g objects directory step time files
  cases writes with
  | failed turns joined => exact ⟨_, turns.settled team, .failed turns.runs joined⟩
  | listed turns joined index => exact ⟨_, turns.settled team, .listed turns.runs joined index⟩
  | @unlisted written _ _ _ _ turns joined index =>
    refine ⟨_, turns.settled team, ?_⟩
    rcases PieceIndex.write_exact directory g.name step time g.workers.length written with
      ⟨reached, name, wrote, -⟩ | ⟨kind, refused⟩
    · cases index.symm.trans wrote
    · cases index.symm.trans refused
      exact .unlisted turns.runs joined _ .same

structure Delivered (objects : List ο) (directory : Path) (step : Nat) (time : Float) (g : Grid ο)
    (outcomes : List (Outcome ExportError Path)) (reached : Files) : Prop where
  each : outcomes.length = g.workers.length
  aborted : ∀ (number : Nat) failure, (g.built objects step time)[number]? = some (.error failure) →
    outcomes[number]? = some (.error failure)
  written : ∀ (number : Nat) place, outcomes[number]? = some (.ok place) →
    place = directory.join (Piece.fileName g.name step number) ∧
    ∃ piece, (g.built objects step time)[number]? = some (.ok piece) ∧
      reached.readText place = .ok piece.text

theorem runs_deliver {g : Grid ο} {outcomes : List (Outcome ExportError Path)}
    (runs : Runs directory ((g.built objects step time).map .start) files
      (outcomes.map .done) written) : g.Delivered objects directory step time outcomes written := by
  have team := ((built_team g objects directory step time files).runs runs).1
  have size : outcomes.length = g.workers.length := by
    rw [← List.length_map Errand.done, team.length_eq, built_length]
  refine ⟨size, ?_, ?_⟩
  · intro number failure there
    have inside := (List.getElem?_eq_some_iff.mp there).1
    rw [built_length, ← size] at inside
    have placed := List.getElem?_eq_getElem inside
    obtain ⟨mine, same, told⟩ := runs.reported placed
    cases there.symm.trans same
    rw [placed]
    cases outcome : outcomes[number] with
    | error other =>
      rw [outcome] at told
      rw [told failure rfl]
    | ok place =>
      rw [outcome] at told
      obtain ⟨piece, aborted, -⟩ := told
      cases aborted
  · intro number place placed
    obtain ⟨mine, there, piece, rfl, rfl⟩ := runs.reported placed
    obtain ⟨own, same, reads⟩ := team.follows number _ _ (Errand.ended placed) there
    cases same
    exact ⟨built_path there, piece, there, reads⟩

theorem own_not_index {g : Grid ο} {name : PathName} (member : mine ∈ g.built objects step time)
    (own : Errand.Own directory mine name) :
    (directory.join (PieceIndex.fileName g.name step)).called? ≠ some name := by
  obtain ⟨number, there⟩ := List.mem_iff_getElem?.mp member
  obtain ⟨piece, rfl, called⟩ := own
  rw [built_path there] at called
  exact GridFile.piece_apart called

theorem runs_unlisted {g : Grid ο} {outcomes : List (Outcome ExportError Path)}
    (runs : Runs directory ((g.built objects step time).map .start) files
      (outcomes.map .done) written) :
    written.there? (directory.join (PieceIndex.fileName g.name step)) =
      files.there? (directory.join (PieceIndex.fileName g.name step)) := by
  have keeps := ((built_team g objects directory step time files).runs runs).2
  apply runs.steady.there keeps
  rintro name called ⟨mine, member, own⟩
  exact own_not_index member own called

theorem Delivered.onward {g : Grid ο} {reached listed : Files}
    (delivered : g.Delivered objects directory step time outcomes reached)
    (index : Files.Keeps (fun name =>
      (directory.join (PieceIndex.fileName g.name step)).called? = some name) reached listed) :
    g.Delivered objects directory step time outcomes listed := by
  refine ⟨delivered.each, delivered.aborted, ?_⟩
  intro number place placed
  obtain ⟨rfl, piece, there, reads⟩ := delivered.written number place placed
  exact ⟨rfl, piece, there, index.reads (fun name own => GridFile.piece_apart own) reads⟩

-- Where a worker failed, the call says so and leaves the index of the step alone. Where the call
-- answers, every piece that the index names was written, and no other is named.
structure Announces (objects : List ο) (directory : Path) (step : Nat) (time : Float) (g : Grid ο)
    (files : Files) (outcomes : List (Outcome ExportError Path))
    (result : Outcome ExportError Nat × Grid ο × Files) : Prop
    extends g.Delivered objects directory step time outcomes result.2.2 where
  silent : ∀ (number : Nat) failure, outcomes[number]? = some (.error failure) →
    (∀ count, result.1 ≠ .ok count) ∧
    result.2.2.there? (directory.join (PieceIndex.fileName g.name step)) =
      files.there? (directory.join (PieceIndex.fileName g.name step))
  announced : ∀ count, result.1 = .ok count → count = g.workers.length ∧
    (∃ content,
      PieceIndex.expand? (PieceIndex.template g.name step time) g.name step count = some content ∧
      result.2.2.readText (directory.join (PieceIndex.fileName g.name step)) = .ok content) ∧
    ∀ number < count,
      outcomes[number]? = some (.ok (directory.join (Piece.fileName g.name step number)))

theorem joined_through {outcomes : List (Outcome ExportError Path)} {number : Nat}
    {failure : Failure ExportError}
    (joined : joinAll crashed outcomes = .ok paths) :
    outcomes[number]? ≠ some (.error failure) := by
  intro failed
  obtain ⟨place, came⟩ := joinAll_through.mp ⟨paths, joined⟩ _ (List.mem_of_getElem? failed)
  cases came

theorem amid_announces {g : Grid ο}
    (writes : WritesAmid objects directory step time g files outcomes result) :
    g.Announces objects directory step time files outcomes result := by
  cases writes with
  | failed runs joined =>
    exact ⟨runs_deliver runs, fun number failure failed => ⟨nofun, runs_unlisted runs⟩, nofun⟩
  | unlisted runs joined fault index =>
    exact ⟨(runs_deliver runs).onward index,
      fun number failure failed => absurd failed (joined_through joined), nofun⟩
  | @listed written paths path _ runs joined index =>
    have delivered := runs_deliver runs
    rcases PieceIndex.write_exact directory g.name step time g.workers.length written with
      ⟨reached, name, wrote, reads, called, keeps⟩ | ⟨kind, refused⟩
    · cases index.symm.trans wrote
      have after := delivered.onward (keeps.widen fun other same => same ▸ called)
      refine ⟨after, fun number failure failed => absurd failed (joined_through joined), ?_⟩
      rintro count ⟨⟩
      refine ⟨rfl, ⟨_, PieceIndex.template_expands g.name step time _, reads⟩, ?_⟩
      intro number inside
      rw [← delivered.each] at inside
      have placed := List.getElem?_eq_getElem inside
      cases outcome : outcomes[number] with
      | error failure =>
        rw [outcome] at placed
        exact absurd placed (joined_through joined)
      | ok place =>
        rw [outcome] at placed
        rw [placed, (delivered.written number place placed).1]
    · cases index.symm.trans refused

theorem amid_made {g : Grid ο} {outcomes : List (Outcome ExportError Path)}
    (runs : Runs directory ((g.built objects step time).map .start) files
      (outcomes.map .done) written) :
    ∃ result, WritesAmid objects directory step time g files outcomes result := by
  cases joined : joinAll (.workerAborted g.name) outcomes with
  | error fault => exact ⟨_, .failed runs joined⟩
  | ok paths =>
    rcases index : PieceIndex.write directory g.name step time g.workers.length written with
      ⟨fault | path, listed⟩
    · exact ⟨_, .unlisted runs joined fault .same⟩
    · exact ⟨_, .listed runs joined index⟩

-- For every grid and all files: whichever workers fail, wherever they fail and in whatever order they
-- come to the files, an index announces nothing that was not written. A worker that is neither aborted
-- nor barred from its file does not fail.
theorem writes_announced (objects : List ο) (directory : Path) (step : Nat) (time : Float)
    (g : Grid ο) (files : Files) :
    WritesPieces objects directory step time g files
      (g.writePieces objects directory step time files) ∧
    (∀ result, WritesPieces objects directory step time g files result → ∃ outcomes,
      List.Forall₂ (Errand.Settles directory files) (g.built objects step time) outcomes ∧
      WritesAmid objects directory step time g files outcomes result) ∧
    (∀ fails : Nat → Prop, ∃ outcomes result,
      WritesAmid objects directory step time g files outcomes result ∧
      ∀ number < g.workers.length, fails number →
        ∃ failure, outcomes[number]? = some (.error failure)) ∧
    ∀ outcomes result, WritesAmid objects directory step time g files outcomes result →
      g.Announces objects directory step time files outcomes result := by
  refine ⟨writePieces_sound objects directory step time g files,
    fun result writes => writes.amid, ?_, fun outcomes result writes => amid_announces writes⟩
  intro fails
  obtain ⟨outcomes, written, runs, failed⟩ :=
    Runs.any directory fails (g.built objects step time) files []
  obtain ⟨result, writes⟩ := amid_made runs
  refine ⟨outcomes, result, writes, fun number inside chosen => ?_⟩
  apply failed number
  · rwa [built_length]
  · rwa [List.length_nil, Nat.zero_add]

def uneven : List (List UInt64) := [[1, 2], [3], [5, 6]]

def staggered : Grid (List UInt64) :=
  match (initial "cells" 3 .copy).addAttribute ⟨"pair", .vector 2, none⟩ .u64 Accessor.rows with
  | .ok (_, g) => (g.update uneven).2
  | .error _ => initial "cells" 3 .copy

def firstPiece : Piece := ⟨"cells", 0, 0, 0, 0, 1, [⟨"pair", 2, "u64", [1, 2]⟩]⟩

def thirdPiece : Piece := ⟨"cells", 0, 0, 2, 2, 3, [⟨"pair", 2, "u64", [5, 6]⟩]⟩

theorem staggered_built : staggered.built uneven 0 0 =
    [.ok firstPiece, .error (.abort none), .ok thirdPiece] := rfl

-- The third worker fills its file in part. Then the first one writes its piece, and the third one is
-- aborted before its own is complete.
theorem staggered_runs : ∃ written, Runs (.ofString "output")
    ((staggered.built uneven 0 0).map .start) (Files.initial.makeDirectory (.ofString "output")).2
    ([.ok (Errand.path (.ofString "output") firstPiece), .error (.abort none),
      .error (.abort none)].map .done) written := by
  obtain ⟨fresh, free⟩ : ∃ fresh, (Files.initial.makeDirectory (.ofString "output")).2.create
      (Errand.path (.ofString "output") firstPiece) = .ok fresh := ⟨_, rfl⟩
  obtain ⟨opened, created⟩ : ∃ opened, (Files.initial.makeDirectory (.ofString "output")).2.create
      (Errand.path (.ofString "output") thirdPiece) = .ok opened := ⟨_, rfl⟩
  obtain ⟨l, name, called, spot, there, before⟩ := Files.create_keeps created
  have part := Files.fill_there spot there (.text "half")
  -- The two files have different names, so the first one can still be created.
  obtain ⟨begun, creates⟩ := (before.trans (Files.fill_keeps called part)).creates
    (fun other own same => absurd (own.trans (same ▸ called.symm)) (by decide)) free
  obtain ⟨l', -, -, spot', there', -⟩ := Files.create_keeps creates
  have filled := Files.fill_there spot' there' (.text firstPiece.text)
  rw [staggered_built]
  exact ⟨_,
    .step (show [_, _, Errand.create thirdPiece][2]? = _ from rfl) (.created created) <|
    .step (show [_, _, Errand.fill thirdPiece][2]? = _ from rfl) (.part part) <|
    .step (show [Errand.create firstPiece, _, _][0]? = _ from rfl) (.created creates) <|
    .step (show [_, _, Errand.fill thirdPiece][2]? = _ from rfl)
      (.broken thirdPiece (.abort none) begun) <|
    .step (show [Errand.fill firstPiece, _, _][0]? = _ from rfl) (.filled filled) .rest⟩

-- Left to itself, only the second worker fails, and the others write their pieces.
theorem writes_announced_staggered :
    (∃ outcomes result,
      WritesAmid uneven (.ofString "output") 0 0 staggered
        (Files.initial.makeDirectory (.ofString "output")).2 outcomes result ∧
      outcomes[1]? = some (.error (.abort none)) ∧ outcomes[2]? = some (.error (.abort none)) ∧
      (∀ count, result.1 ≠ .ok count) ∧
      result.2.2.there? ((Path.ofString "output").join (PieceIndex.fileName "cells" 0)) = none ∧
      result.2.2.readText ((Path.ofString "output").join (Piece.fileName "cells" 0 0)) =
        .ok firstPiece.text) ∧
    ∀ result, staggered.writePieces uneven (.ofString "output") 0 0
        (Files.initial.makeDirectory (.ofString "output")).2 = result →
      (∀ count, result.1 ≠ .ok count) ∧
      result.2.2.there? ((Path.ofString "output").join (PieceIndex.fileName "cells" 0)) = none ∧
      result.2.2.readText ((Path.ofString "output").join (Piece.fileName "cells" 0 0)) =
        .ok firstPiece.text ∧
      result.2.2.readText ((Path.ofString "output").join (Piece.fileName "cells" 0 2)) =
        .ok thirdPiece.text := by
  obtain ⟨own, settles, -, each⟩ := writes_announced uneven (.ofString "output") 0 0 staggered
    (Files.initial.makeDirectory (.ofString "output")).2
  constructor
  · obtain ⟨written, runs⟩ := staggered_runs
    have writes : WritesAmid uneven (.ofString "output") 0 0 staggered
        (Files.initial.makeDirectory (.ofString "output")).2 _ (.error (.abort none), _, written) :=
      .failed runs rfl
    have announces := each _ _ writes
    obtain ⟨told, index⟩ := announces.silent 1 _ rfl
    obtain ⟨-, piece, there, reads⟩ := announces.written 0 _ rfl
    rw [staggered_built] at there
    cases there
    exact ⟨_, _, writes, rfl, rfl, told, index.trans (by rfl), reads⟩
  · intro result wrote
    obtain ⟨outcomes, settled, writes⟩ := settles result (wrote ▸ own)
    have announces := each outcomes result writes
    rw [staggered_built] at settled
    obtain - | ⟨first, - | ⟨second, - | ⟨third, -⟩⟩⟩ := settled
    cases first.through rfl
    cases second
    cases third.through rfl
    obtain ⟨told, index⟩ := announces.silent 1 _ rfl
    obtain ⟨-, piece, there, reads⟩ := announces.written 0 _ rfl
    obtain ⟨-, piece', there', reads'⟩ := announces.written 2 _ rfl
    rw [staggered_built] at there there'
    cases there
    cases there'
    exact ⟨told, index.trans (by rfl), reads, reads'⟩

end Grid
end InSitu
