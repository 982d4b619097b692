import InSitu.PieceFiles
import InSitu.Proofs.Files.Tree
import InSitu.Proofs.Json.Record
import InSitu.Proofs.Outcome
namespace InSitu

namespace AttributeInfo

theorem ofJson_written {a : AttributeInfo} (fits : a.components < Nat.pow 2 64) :
    ofJson? a.toJson = some a := by
  have found : a.toJson.fields? ["name", "components", "scalar_type", "kind", "units"] =
      some [some (.text a.name), some (.ofNat a.components), some (.text a.scalarType),
        some (.text a.kind), a.units.map .text] := Json.fields_written (by simp)
  simp only [ofJson?, found, Option.bind_eq_bind, Option.bind_some, Json.content?,
    Json.natBelow_nat fits, Json.optional_text]
  rfl

theorem spelled (a : AttributeInfo) : Json.Spelled a.toJson := by
  refine Json.spelled_fields ?_
  simp [Json.spelled_nat, Json.Spelled.text]

end AttributeInfo

namespace GridInfo

theorem ofJson_written {g : GridInfo} (fits : g.pieces < Nat.pow 2 64)
    (each : ∀ a ∈ g.attributes, a.components < Nat.pow 2 64) : ofJson? g.toJson = some g := by
  have found : g.toJson.fields? ["name", "pieces", "attributes"] =
      some [some (.text g.name), some (.ofNat g.pieces),
        some (.array (g.attributes.map AttributeInfo.toJson))] := Json.fields_written (by simp)
  have attributes : Json.items? (·.bind AttributeInfo.ofJson?)
      (some (.array (g.attributes.map AttributeInfo.toJson))) = some g.attributes :=
    Json.items_each fun a member => AttributeInfo.ofJson_written (each a member)
  simp only [ofJson?, found, Option.bind_eq_bind, Option.bind_some, Json.content?,
    Json.natBelow_nat fits, attributes]
  rfl

theorem spelled (g : GridInfo) : Json.Spelled g.toJson := by
  have attributes := Json.spelled_items fun a (_ : a ∈ g.attributes) => AttributeInfo.spelled a
  refine Json.spelled_fields ?_
  simp [Json.spelled_nat, Json.Spelled.text, attributes]

end GridInfo

theorem Path.ofString_text {p : Path} (textual : p.text? = some text) : ofString text = p := by
  obtain ⟨chars, shown, rfl⟩ := Option.map_eq_some_iff.mp textual
  have each : List.Forall₂ (fun unit c => unit = PathUnit.char c) p.units chars := by
    refine (Json.mapM_exact.mp shown).imp fun unit c same => ?_
    cases unit <;> cases same
    rfl
  rw [← List.forall₂_map_right_iff, List.forall₂_eq_eq_eq] at each
  rw [ofString, String.toList_ofList, ← each]

namespace SimulationInfo

structure Fits (info : SimulationInfo) : Prop where
  interval : info.interval < Nat.pow 2 64
  workers : info.workers < Nat.pow 2 64
  pieces : ∀ g ∈ info.grids, g.pieces < Nat.pow 2 64
  components : ∀ g ∈ info.grids, ∀ a ∈ g.attributes, a.components < Nat.pow 2 64
  steps : ∀ step ∈ info.steps, step < Nat.pow 2 64

-- The number that is written for a finite time step is read as that time step.
def Reread (info : SimulationInfo) : Prop :=
  Decimal.finiteBits info.timeStep.toBits.toNat = true →
    Json.double? (some (.ofFloat info.timeStep)) = some info.timeStep

def record (info : SimulationInfo) (outputDir : String) : Json :=
  .ofFields [("simulation", some (.text info.simulation)),
    ("output_dir", some (.text outputDir)), ("export_interval", some (.ofNat info.interval)),
    ("time_step", some (.ofFloat info.timeStep)), ("workers", some (.ofNat info.workers)),
    ("grids", some (.array (info.grids.map GridInfo.toJson))),
    ("steps", some (.array (info.steps.map .ofNat)))]

theorem toJson_textual {info : SimulationInfo} (textual : info.outputDir.text? = some directory) :
    info.toJson? = some (info.record directory) := by
  rw [toJson?, textual]
  rfl

theorem spelled {info : SimulationInfo}
    (timed : Json.double? (some (.ofFloat info.timeStep)) = some info.timeStep) (directory : String) :
    Json.Spelled (info.record directory) := by
  have described := Json.spelled_items fun g (_ : g ∈ info.grids) => GridInfo.spelled g
  have listed := Json.spelled_items fun step (_ : step ∈ info.steps) => Json.spelled_nat step
  refine Json.spelled_fields ?_
  simp [Json.spelled_nat, Json.Spelled.text, Json.double_spelled timed, described, listed]

theorem ofJson_written {info : SimulationInfo} (fits : info.Fits)
    (textual : info.outputDir.text? = some directory)
    (timed : Json.double? (some (.ofFloat info.timeStep)) = some info.timeStep) :
    ofJson? (info.record directory) = some info := by
  have found : (info.record directory).fields? ["simulation", "output_dir", "export_interval",
      "time_step", "workers", "grids", "steps"] =
      some [some (.text info.simulation), some (.text directory), some (.ofNat info.interval),
        some (.ofFloat info.timeStep), some (.ofNat info.workers),
        some (.array (info.grids.map GridInfo.toJson)),
        some (.array (info.steps.map .ofNat))] := Json.fields_written (by simp)
  have grids : Json.items? (·.bind GridInfo.ofJson?)
      (some (.array (info.grids.map GridInfo.toJson))) = some info.grids :=
    Json.items_each fun g member =>
      GridInfo.ofJson_written (fits.pieces g member) (fits.components g member)
  have steps : Json.items? (Json.natBelow? (Nat.pow 2 64))
      (some (.array (info.steps.map .ofNat))) = some info.steps :=
    Json.items_each fun step member => Json.natBelow_nat (fits.steps step member)
  simp only [ofJson?, found, Option.bind_eq_bind, Option.bind_some, Json.content?,
    Json.natBelow_nat fits.interval, timed, Json.natBelow_nat fits.workers, grids, steps,
    Path.ofString_text textual]
  rfl

theorem write_made {info : SimulationInfo} (written : info.sidecarText? = some content)
    (directory : Path) (files : Files) :
    (∃ reached, info.write directory files = (.ok (directory.join fileName), reached) ∧
      reached.readText (directory.join fileName) = .ok content) ∨
    ∃ kind, info.write directory files =
      (.error (.error (.io (directory.join fileName) kind)), files) := by
  unfold write
  simp only [written]
  generalize directory.join fileName = path
  cases created : files.create path with
  | ok fresh =>
    obtain ⟨reached, filed, reads⟩ := Files.write_reads created content
    refine .inl ⟨reached, ?_, reads⟩
    simp only [Act.bind_exact, onFile, filed]
    rfl
  | error kind =>
    have refused : files.write path (.text content) = .error kind := by
      simp only [Files.write, created, bind, Except.bind]
    refine .inr ⟨kind, ?_⟩
    simp only [Act.bind_exact, onFile, refused]

-- For all information with a textual directory and a finite time step whose number is read as it
-- was written: both texts are made and read as that information, and so is the sidecar wherever the
-- file system lets it be written.
theorem sidecar_reads_back {info : SimulationInfo} (fits : info.Fits)
    (textual : info.outputDir.text?.isSome)
    (finite : Decimal.finiteBits info.timeStep.toBits.toNat = true) (reread : info.Reread) :
    (∃ text, info.text? = some text ∧ read? text = some info) ∧
    (∃ text, info.sidecarText? = some text ∧ read? text = some info) ∧
    ∀ directory files,
      (∃ reached, info.write directory files = (.ok (directory.join fileName), reached) ∧
        read (directory.join fileName) reached = (.ok info, reached)) ∨
      ∃ kind, info.write directory files =
        (.error (.error (.io (directory.join fileName) kind)), files) := by
  have timed := reread finite
  obtain ⟨outputDir, shown⟩ := Option.isSome_iff_exists.mp textual
  have made := toJson_textual shown
  have spelled := info.spelled timed outputDir
  have returns := ofJson_written fits shown timed
  have indented : read? (info.record outputDir).indented = some info := by
    rw [read?, Json.read_indented spelled, Option.bind_some, returns]
  have sidecar : info.sidecarText? = some (info.record outputDir).indented := by
    rw [sidecarText?, made, Option.map_some]
  refine ⟨⟨(info.record outputDir).compact, ?_, ?_⟩, ⟨_, sidecar, indented⟩, ?_⟩
  · rw [text?, made, Option.map_some]
  · rw [read?, Json.read_compact spelled, Option.bind_some, returns]
  · intro directory files
    rcases write_made sidecar directory files with ⟨reached, filed, reads⟩ | refused
    · refine .inl ⟨reached, filed, ?_⟩
      have read : readFile (directory.join fileName) reached =
          (.ok (info.record outputDir).indented, reached) := by
        simp only [readFile, reads]
      simp only [SimulationInfo.read, Act.bind_exact, read, indented]
      rfl
    · exact .inr refused

-- Marks and control characters in every text, units there and absent, a grid without attributes.
def marked : SimulationInfo where
  simulation := "run \"7\" \\ \x07\n"
  outputDir := .ofString "out/\t\"a\""
  interval := 5
  timeStep := Float.ofBits 0x3f847ae147ae147b
  workers := 3
  grids := [⟨"cells\x00", 3, [⟨"diameter", 1, "f64", "scalar", some "\u00b5m"⟩,
    ⟨"velocity", 3, "f32", "vector", none⟩]⟩, ⟨"", 0, []⟩]
  steps := [0, 18446744073709551615]

theorem sidecar_reads_back_marked :
    marked.Fits ∧ marked.outputDir.text?.isSome ∧
    Decimal.finiteBits marked.timeStep.toBits.toNat = true ∧ marked.Reread ∧
    ∃ text, marked.sidecarText? = some text ∧ read? text = some marked := by
  have fits : marked.Fits := ⟨by decide, by decide, by decide, by decide, by decide⟩
  have textual : marked.outputDir.text?.isSome := rfl
  have finite : Decimal.finiteBits marked.timeStep.toBits.toNat = true := rfl
  have reread : marked.Reread := fun _ => rfl
  obtain ⟨-, sidecar, -⟩ := sidecar_reads_back fits textual finite reread
  exact ⟨fits, textual, finite, reread, sidecar⟩

end SimulationInfo
end InSitu
