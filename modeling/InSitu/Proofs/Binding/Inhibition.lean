import InSitu.Binding.Cell
import Mathlib.Algebra.GroupWithZero.Nat
import Mathlib.Data.List.Forall2
namespace InSitu

namespace Generator
variable (g : Generator γ)

def after : Nat → γ → γ
  | 0, s => s
  | count + 1, s => after count (g.next s).2

def drawAt (place : Nat) (s : γ) : UInt64 := (g.next (g.after place s)).1

-- The same draws, and a tally of those that were taken.
def tallied : Generator (γ × Nat) where
  next
    | (s, taken) => ((g.next s).1, (g.next s).2, taken + 1)

theorem after_add (front back : Nat) (s : γ) :
    g.after (front + back) s = g.after back (g.after front s) := by
  induction front generalizing s with
  | zero => rw [Nat.zero_add, after]
  | succ front ih =>
    rw [Nat.succ_add, after, after]
    exact ih _

theorem drawAt_add (front place : Nat) (s : γ) :
    g.drawAt (front + place) s = g.drawAt place (g.after front s) := by
  rw [drawAt, after_add, drawAt]

theorem after_tallied (count : Nat) (s : γ) (taken : Nat) :
    g.tallied.after count (s, taken) = (g.after count s, taken + count) := by
  induction count generalizing s taken with
  | zero => rfl
  | succ count ih =>
    have one : g.tallied.next (s, taken) = ((g.next s).1, (g.next s).2, taken + 1) := rfl
    rw [after, one, ih, after, Nat.add_right_comm, Nat.add_assoc]

theorem drawAt_tallied (place : Nat) (s : γ) (taken : Nat) :
    g.tallied.drawAt place (s, taken) = g.drawAt place s := by
  rw [drawAt, after_tallied]
  rfl

end Generator

namespace BindingCell

def Kept (before after : BindingCell) : Prop :=
  after = {before with inhibited := after.inhibited} ∧ (before.isInhibited → after.isInhibited)

def inhibitions (before after : List BindingCell) : Nat :=
  (before.zip after).countP fun pair => ! pair.1.isInhibited && pair.2.isInhibited

theorem Kept.refl (cell : BindingCell) : Kept cell cell := ⟨rfl, fun marked => marked⟩

theorem Kept.trans (earlier : Kept before between) (later : Kept between after) : Kept before after := by
  refine ⟨?_, later.2 ∘ earlier.2⟩
  rw [later.1, earlier.1]

theorem Kept.position_eq (kept : Kept before after) : after.position = before.position := by
  rw [kept.1]

theorem inhibit_kept (cell : BindingCell) : Kept cell cell.inhibit := ⟨rfl, fun _ => rfl⟩

theorem inhibitions_cons (cell other : BindingCell) (before after : List BindingCell) :
    inhibitions (cell :: before) (other :: after) =
      inhibitions before after + (! cell.isInhibited && other.isInhibited).toNat := by
  rw [inhibitions, List.zip_cons_cons, List.countP_cons]
  cases cell.isInhibited <;> cases other.isInhibited <;> rfl

theorem inhibitions_append (same : before.length = after.length) (more others : List BindingCell) :
    inhibitions (before ++ more) (after ++ others) = inhibitions before after + inhibitions more others := by
  rw [inhibitions, List.zip_append same, List.countP_append]
  rfl

theorem inhibitions_growth (kept : List.Forall₂ Kept before after) :
    inhibitions before after + before.countP isInhibited = after.countP isInhibited := by
  induction kept with
  | nil => rfl
  | cons first rest ih =>
    have stays := first.2
    rw [inhibitions_cons, List.countP_cons, List.countP_cons, ← ih]
    revert stays
    cases BindingCell.isInhibited _ <;> cases BindingCell.isInhibited _ <;> simp <;> omega

end BindingCell

open BindingCell

namespace InhibitionRule

def treated (rule : InhibitionRule) (level : Float) (cell : BindingCell) (draw : UInt64) : BindingCell :=
  if rule.holds (fun _ => level) cell draw then cell.inhibit else cell

def treatedAll (rule : InhibitionRule) (concentration : Position → Float) (g : Generator γ)
    (cells : List BindingCell) (s : γ) : List BindingCell :=
  cells.mapIdx fun place cell => rule.treated (concentration cell.position) cell (g.drawAt place s)

section Cells
variable (rule : InhibitionRule) (concentration : Position → Float) (g : Generator γ)

theorem treated_kept (level : Float) (cell : BindingCell) (draw : UInt64) :
    Kept cell (rule.treated level cell draw) := by
  unfold treated
  split
  · exact inhibit_kept cell
  · exact .refl cell

theorem apply_exact (cell : BindingCell) (s : γ) :
    rule.apply concentration g cell s =
      (! cell.isInhibited && (rule.treated (concentration cell.position) cell (g.next s).1).isInhibited,
        rule.treated (concentration cell.position) cell (g.next s).1, (g.next s).2) := by
  have level : ∀ draw, rule.holds concentration cell draw =
      rule.holds (fun _ => concentration cell.position) cell draw := fun _ => rfl
  unfold apply treated
  rcases g.next s with ⟨draw, rest⟩
  simp only [level]
  split
  · simp [inhibit, isInhibited]
  · simp

theorem treatedAll_cons (cell : BindingCell) (rest : List BindingCell) (s : γ) :
    rule.treatedAll concentration g (cell :: rest) s =
      rule.treated (concentration cell.position) cell (g.next s).1 ::
        rule.treatedAll concentration g rest (g.next s).2 := by
  rw [treatedAll, List.mapIdx_cons]
  rfl

theorem treatedAll_length (cells : List BindingCell) (s : γ) :
    (rule.treatedAll concentration g cells s).length = cells.length := List.length_mapIdx

theorem treatedAll_place (cells : List BindingCell) (s : γ) (place : Nat) :
    (rule.treatedAll concentration g cells s)[place]? = cells[place]?.map fun cell =>
      rule.treated (concentration cell.position) cell (g.drawAt place s) := List.getElem?_mapIdx

theorem treatedAll_append (front back : List BindingCell) (s : γ) :
    rule.treatedAll concentration g (front ++ back) s = rule.treatedAll concentration g front s ++
      rule.treatedAll concentration g back (g.after front.length s) := by
  simp only [treatedAll, List.mapIdx_append, ← g.drawAt_add, Nat.add_comm]

theorem treatedAll_kept (cells : List BindingCell) (s : γ) :
    List.Forall₂ Kept cells (rule.treatedAll concentration g cells s) := by
  induction cells generalizing s with
  | nil => exact .nil
  | cons cell rest ih =>
    rw [treatedAll_cons]
    exact .cons (rule.treated_kept _ cell _) (ih _)

theorem step_exact (cells : List BindingCell) (s : γ) :
    rule.step concentration g cells s =
      (inhibitions cells (rule.treatedAll concentration g cells s),
        rule.treatedAll concentration g cells s, g.after cells.length s) := by
  induction cells generalizing s with
  | nil => rfl
  | cons cell rest ih =>
    simp only [step, apply_exact, ih, treatedAll_cons, inhibitions_cons, List.length_cons, Generator.after]

theorem treatedAll_tallied (cells : List BindingCell) (s : γ) (taken : Nat) :
    rule.treatedAll concentration g.tallied cells (s, taken) =
      rule.treatedAll concentration g cells s := by
  simp only [treatedAll, g.drawAt_tallied]

theorem step_tallied (cells : List BindingCell) (s : γ) (taken : Nat) :
    rule.step concentration g.tallied cells (s, taken) =
      ((rule.step concentration g cells s).1, (rule.step concentration g cells s).2.1,
        g.after cells.length s, taken + cells.length) := by
  rw [step_exact, step_exact, treatedAll_tallied, g.after_tallied]

theorem step_append (front back : List BindingCell) (s : γ) :
    ∃ count after between more others last,
      rule.step concentration g front s = (count, after, between) ∧
      rule.step concentration g back between = (more, others, last) ∧
      rule.step concentration g (front ++ back) s = (count + more, after ++ others, last) := by
  refine ⟨_, _, _, _, _, _, rule.step_exact concentration g front s, rule.step_exact concentration g back _, ?_⟩
  have lengths := rule.treatedAll_length concentration g front s
  rw [step_exact, treatedAll_append, inhibitions_append lengths.symm, List.length_append, g.after_add]

end Cells

-- Two cells that are alike, under one rule and concentration, with one draw, fare alike. Nothing else of
-- the two steps has to agree: neither the other cells, nor the fields elsewhere, nor the generators.
theorem step_apart {rule : InhibitionRule} {concentration field : Position → Float} {g : Generator γ}
    {h : Generator δ} {cells others : List BindingCell} {s : γ} {t : δ} {place other : Nat}
    (here : cells[place]? = some cell) (there : others[other]? = some cell)
    (level : field cell.position = concentration cell.position)
    (draw : h.drawAt other t = g.drawAt place s) :
    (rule.step field h others t).2.1[other]? = (rule.step concentration g cells s).2.1[place]? := by
  rw [step_exact, step_exact]
  simp only [treatedAll_place, here, there, Option.map_some, level, draw]

end InhibitionRule

structure Exposure where
  rule : InhibitionRule
  concentration : Position → Float

namespace Exposure

def stepAll (g : Generator γ) : List Exposure → List BindingCell → γ → List Nat × List BindingCell × γ
  | [], cells, s => ([], cells, s)
  | exposure :: rest, cells, s =>
    let (count, cells, s) := exposure.rule.step exposure.concentration g cells s
    let (counts, cells, s) := stepAll g rest cells s
    (count :: counts, cells, s)

-- One cell through all steps, with its draw in each of them.
def course : List Exposure → (Nat → UInt64) → BindingCell → BindingCell
  | [], _, cell => cell
  | exposure :: rest, draws, cell =>
    course rest (fun turn => draws (turn + 1))
      (exposure.rule.treated (exposure.concentration cell.position) cell (draws 0))

theorem course_kept (exposures : List Exposure) (draws : Nat → UInt64) (cell : BindingCell) :
    Kept cell (course exposures draws cell) := by
  induction exposures generalizing draws cell with
  | nil => exact .refl cell
  | cons exposure rest ih => exact (exposure.rule.treated_kept _ cell _).trans (ih _ _)

theorem course_alike {exposures others : List Exposure} {draws drawn : Nat → UInt64} {cell : BindingCell}
    (met : List.Forall₂ (fun one other => other.rule = one.rule ∧
      other.concentration cell.position = one.concentration cell.position) exposures others)
    (draw : ∀ turn < exposures.length, drawn turn = draws turn) :
    course others drawn cell = course exposures draws cell := by
  induction exposures generalizing others draws drawn cell with
  | nil =>
    cases met
    rfl
  | cons exposure rest ih =>
    cases met with
    | cons first later =>
      rename_i other behind
      have moved : (exposure.rule.treated (exposure.concentration cell.position) cell
          (draws 0)).position = cell.position := (exposure.rule.treated_kept _ cell _).position_eq
      rw [course, course, first.1, first.2, draw 0 (Nat.succ_pos _)]
      apply ih
      · rwa [moved]
      · intro turn before
        exact draw (turn + 1) (Nat.succ_lt_succ before)

section Runs
variable (g : Generator γ)

theorem stepAll_cons (exposure : Exposure) (rest : List Exposure) (cells : List BindingCell) (s : γ) :
    stepAll g (exposure :: rest) cells s =
      (inhibitions cells (exposure.rule.treatedAll exposure.concentration g cells s) ::
          (stepAll g rest (exposure.rule.treatedAll exposure.concentration g cells s)
            (g.after cells.length s)).1,
        (stepAll g rest (exposure.rule.treatedAll exposure.concentration g cells s)
          (g.after cells.length s)).2) := by
  rw [stepAll, InhibitionRule.step_exact]

theorem stepAll_length (exposures : List Exposure) (cells : List BindingCell) (s : γ) :
    (stepAll g exposures cells s).2.1.length = cells.length := by
  induction exposures generalizing cells s with
  | nil => rfl
  | cons exposure rest ih =>
    simp only [stepAll_cons, ih, InhibitionRule.treatedAll_length]

theorem stepAll_drawn (exposures : List Exposure) (cells : List BindingCell) (s : γ) :
    (stepAll g exposures cells s).2.2 = g.after (exposures.length * cells.length) s := by
  induction exposures generalizing cells s with
  | nil => rw [List.length_nil, Nat.zero_mul, stepAll, Generator.after]
  | cons exposure rest ih =>
    simp only [stepAll_cons, ih, InhibitionRule.treatedAll_length]
    rw [← g.after_add, List.length_cons, Nat.succ_mul, Nat.add_comm]

theorem stepAll_place (exposures : List Exposure) (cells : List BindingCell) (s : γ) (place : Nat) :
    (stepAll g exposures cells s).2.1[place]? = cells[place]?.map
      (course exposures fun turn => g.drawAt (turn * cells.length + place) s) := by
  induction exposures generalizing cells s with
  | nil => cases there : cells[place]? <;> simp [stepAll, course, there]
  | cons exposure rest ih =>
    have shift : ∀ turn, (turn + 1) * cells.length + place =
        cells.length + (turn * cells.length + place) := by
      intro turn
      rw [Nat.succ_mul]
      omega
    simp only [stepAll_cons, ih, InhibitionRule.treatedAll_length,
      InhibitionRule.treatedAll_place, Option.map_map, Function.comp_def, course, shift, g.drawAt_add,
      Nat.zero_mul]
    rw [Generator.after]

theorem stepAll_kept (exposures : List Exposure) (cells : List BindingCell) (s : γ) :
    List.Forall₂ Kept cells (stepAll g exposures cells s).2.1 := by
  rw [List.forall₂_iff_get]
  refine ⟨(stepAll_length g exposures cells s).symm, fun place here there => ?_⟩
  have reached := stepAll_place g exposures cells s place
  rw [List.getElem?_eq_getElem here, List.getElem?_eq_getElem there] at reached
  rw [List.get_eq_getElem, List.get_eq_getElem, Option.some.inj reached]
  exact course_kept exposures _ _

theorem stepAll_tallied (exposures : List Exposure) (cells : List BindingCell) (s : γ) (taken : Nat) :
    stepAll g.tallied exposures cells (s, taken) =
      ((stepAll g exposures cells s).1, (stepAll g exposures cells s).2.1,
        g.after (exposures.length * cells.length) s, taken + exposures.length * cells.length) := by
  rw [← stepAll_drawn]
  induction exposures generalizing cells s taken with
  | nil => rw [List.length_nil, Nat.zero_mul, Nat.add_zero, stepAll, stepAll]
  | cons exposure rest ih =>
    simp only [stepAll_cons, InhibitionRule.treatedAll_tallied, g.after_tallied, ih,
      InhibitionRule.treatedAll_length]
    rw [List.length_cons, Nat.succ_mul, Nat.add_assoc, Nat.add_comm cells.length]

theorem stepAll_growth (exposures : List Exposure) (cells : List BindingCell) (s : γ) :
    (stepAll g exposures cells s).1.sum + cells.countP isInhibited =
      (stepAll g exposures cells s).2.1.countP isInhibited := by
  induction exposures generalizing cells s with
  | nil => exact Nat.zero_add _
  | cons exposure rest ih =>
    have first := inhibitions_growth (exposure.rule.treatedAll_kept exposure.concentration g cells s)
    simp only [stepAll_cons, ← ih, List.sum_cons]
    omega

theorem stepAll_counts (exposures : List Exposure) (cells : List BindingCell) (s : γ) :
    (stepAll g exposures cells s).1.sum ≤ cells.length := by
  have growth := stepAll_growth g exposures cells s
  have after := stepAll_length g exposures cells s
  have most := List.countP_le_length (p := isInhibited) (l := (stepAll g exposures cells s).2.1)
  omega

end Runs

theorem stepAll_apart {exposures met : List Exposure} {g : Generator γ} {h : Generator δ}
    {cells others : List BindingCell} {s : γ} {t : δ} {place other : Nat}
    (here : cells[place]? = some cell) (there : others[other]? = some cell)
    (alike : List.Forall₂ (fun one another => another.rule = one.rule ∧
      another.concentration cell.position = one.concentration cell.position) exposures met)
    (draw : ∀ turn < exposures.length, h.drawAt (turn * others.length + other) t =
      g.drawAt (turn * cells.length + place) s) :
    (stepAll h met others t).2.1[other]? = (stepAll g exposures cells s).2.1[place]? := by
  rw [stepAll_place, stepAll_place, here, there]
  exact congrArg some (course_alike alike draw)

end Exposure

structure InhibitionRule.Confined (rule : InhibitionRule) (concentration : Position → Float)
    (g : Generator γ) (cells : List BindingCell) (s : γ) : Prop where
  -- One draw for each cell. A tally says the same of generators that come back to an earlier state.
  drawn : (rule.step concentration g cells s).2.2 = g.after cells.length s
  tallied : ∀ taken, rule.step concentration g.tallied cells (s, taken) =
    ((rule.step concentration g cells s).1, (rule.step concentration g cells s).2.1,
      g.after cells.length s, taken + cells.length)
  apart : ∀ {δ : Type} (h : Generator δ) (t : δ) (field : Position → Float) (others : List BindingCell)
    (place other : Nat) (cell : BindingCell), cells[place]? = some cell → others[other]? = some cell →
    field cell.position = concentration cell.position → h.drawAt other t = g.drawAt place s →
    (rule.step field h others t).2.1[other]? = (rule.step concentration g cells s).2.1[place]?
  appended : ∀ back, ∃ count after between more others last,
    rule.step concentration g cells s = (count, after, between) ∧
    rule.step concentration g back between = (more, others, last) ∧
    rule.step concentration g (cells ++ back) s = (count + more, after ++ others, last)
  kept : List.Forall₂ Kept cells (rule.step concentration g cells s).2.1
  counted : (rule.step concentration g cells s).1 =
    inhibitions cells (rule.step concentration g cells s).2.1

structure Exposure.Confined (exposures : List Exposure) (g : Generator γ) (cells : List BindingCell)
    (s : γ) : Prop where
  drawn : (stepAll g exposures cells s).2.2 = g.after (exposures.length * cells.length) s
  tallied : ∀ taken, stepAll g.tallied exposures cells (s, taken) =
    ((stepAll g exposures cells s).1, (stepAll g exposures cells s).2.1,
      g.after (exposures.length * cells.length) s, taken + exposures.length * cells.length)
  apart : ∀ {δ : Type} (h : Generator δ) (t : δ) (met : List Exposure) (others : List BindingCell)
    (place other : Nat) (cell : BindingCell), cells[place]? = some cell → others[other]? = some cell →
    List.Forall₂ (fun one another => another.rule = one.rule ∧
      another.concentration cell.position = one.concentration cell.position) exposures met →
    (∀ turn < exposures.length, h.drawAt (turn * others.length + other) t =
      g.drawAt (turn * cells.length + place) s) →
    (stepAll h met others t).2.1[other]? = (stepAll g exposures cells s).2.1[place]?
  kept : List.Forall₂ Kept cells (stepAll g exposures cells s).2.1
  growth : (stepAll g exposures cells s).1.sum + cells.countP isInhibited =
    (stepAll g exposures cells s).2.1.countP isInhibited
  most : (stepAll g exposures cells s).1.sum ≤ cells.length

-- For every generator and every cells, under any rule and field, and over any steps: each cell takes one
-- draw and depends on nothing else that could differ between two runs. No mark is lost, nothing but marks
-- changes, and the counts are the marks that were added.
theorem draws_confined (g : Generator γ) (cells : List BindingCell) (s : γ) :
    (∀ rule concentration, InhibitionRule.Confined rule concentration g cells s) ∧
    ∀ exposures, Exposure.Confined exposures g cells s := by
  constructor
  · intro rule concentration
    constructor
    case drawn => rw [InhibitionRule.step_exact]
    case tallied => exact rule.step_tallied concentration g cells s
    case apart =>
      intro δ h t field others place other cell here there level draw
      exact InhibitionRule.step_apart here there level draw
    case appended => exact fun back => rule.step_append concentration g cells back s
    case kept =>
      rw [InhibitionRule.step_exact]
      exact rule.treatedAll_kept concentration g cells s
    case counted => rw [InhibitionRule.step_exact]
  · intro exposures
    constructor
    case drawn => exact Exposure.stepAll_drawn g exposures cells s
    case tallied => exact Exposure.stepAll_tallied g exposures cells s
    case apart =>
      intro δ h t met others place other cell here there alike draw
      exact Exposure.stepAll_apart here there alike draw
    case kept => exact Exposure.stepAll_kept g exposures cells s
    case growth => exact Exposure.stepAll_growth g exposures cells s
    case most => exact Exposure.stepAll_counts g exposures cells s

-- Two draws are small enough. The second falls on a cell that was inhibited before.
example : (InhibitionRule.step {probability := 0.5} (fun _ => 1) Listed.generator
    [⟨0, ⟨0, 0, 0⟩, 1, 0, 0⟩, ⟨1, ⟨0, 0, 0⟩, 1, 0, 7⟩, ⟨2, ⟨0, 0, 0⟩, 1, 0, 0⟩]
    (.ofList [0, 0, 9223372036854775808])).1 = 1 := by decide

end InSitu
