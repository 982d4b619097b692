import InSitu.Decimal.Rounding
import Mathlib.Algebra.Order.Field.Power
import Mathlib.Data.Rat.Cast.Order
import Mathlib.Tactic.FieldSimp
import Mathlib.Tactic.Linarith
import Mathlib.Tactic.Positivity
import Mathlib.Tactic.Ring
namespace InSitu.Decimal

@[irreducible] def unitsInOne : Nat := 2 ^ 1074

theorem unitsInOne_power : (unitsInOne : ℚ) = 2 ^ (1074 : Int) := by
  unfold unitsInOne
  rw [Nat.cast_pow]
  exact (zpow_natCast 2 1074).symm

theorem unitsInOne_whole : 0 < unitsInOne := by
  unfold unitsInOne
  apply Nat.two_pow_pos

theorem unitsInOne_pos : (0 : ℚ) < unitsInOne := Nat.cast_pos.mpr unitsInOne_whole

def units (bits : Nat) : Nat :=
  if bits / 2 ^ 52 = 0 then bits % 2 ^ 52
  else (2 ^ 52 + bits % 2 ^ 52) * 2 ^ (bits / 2 ^ 52 - 1)

-- Bits counted from a power of two onward. The last of them may be the next power of two.
theorem units_place {step place : Nat} (full : step = 0 ∨ 2 ^ 52 ≤ place) (bounded : place ≤ 2 ^ 53) :
    units (step * 2 ^ 52 + place) = place * 2 ^ step := by
  unfold units
  by_cases low : place < 2 ^ 52
  · obtain rfl : step = 0 := by omega
    rw [if_pos (by omega), Nat.zero_mul, Nat.zero_add, Nat.mod_eq_of_lt low, Nat.pow_zero, Nat.mul_one]
  · by_cases top : place = 2 ^ 53
    · have field : (step * 2 ^ 52 + place) / 2 ^ 52 = step + 2 := by omega
      have fraction : (step * 2 ^ 52 + place) % 2 ^ 52 = 0 := by omega
      rw [field, fraction, if_neg (by omega), top, Nat.add_succ_sub_one, Nat.pow_succ]
      ring
    · have field : (step * 2 ^ 52 + place) / 2 ^ 52 = step + 1 := by omega
      have fraction : (step * 2 ^ 52 + place) % 2 ^ 52 = place - 2 ^ 52 := by omega
      rw [field, fraction, if_neg (by omega), Nat.add_sub_cancel, Nat.add_sub_cancel' (by omega)]

theorem bits_place (bits : Nat) : ∃ step place, bits = step * 2 ^ 52 + place ∧
    (step = 0 ∨ 2 ^ 52 ≤ place) ∧ place < 2 ^ 53 := by
  by_cases least : bits / 2 ^ 52 = 0
  · exact ⟨0, bits, by omega, .inl rfl, by omega⟩
  · exact ⟨bits / 2 ^ 52 - 1, bits % 2 ^ 52 + 2 ^ 52, by omega, .inr (by omega), by omega⟩

theorem units_next (bits : Nat) : units bits < units (bits + 1) := by
  obtain ⟨step, place, rfl, full, below⟩ := bits_place bits
  rw [units_place full (by omega), Nat.add_assoc, units_place (by omega) (by omega)]
  exact Nat.mul_lt_mul_of_pos_right (Nat.lt_succ_self _) (Nat.two_pow_pos _)

theorem units_strict : StrictMono units := strictMono_nat_of_lt_succ units_next

def middle (bits : Nat) : ℚ := ((units bits : ℚ) + units (bits + 1)) / 2

theorem middle_above (bits : Nat) : (units bits : ℚ) < middle bits := by
  have next : (units bits : ℚ) < units (bits + 1) := by exact_mod_cast units_next bits
  unfold middle
  linarith

theorem middle_below (bits : Nat) : middle bits < units (bits + 1) := by
  have next : (units bits : ℚ) < units (bits + 1) := by exact_mod_cast units_next bits
  unfold middle
  linarith

theorem middle_strict : StrictMono middle :=
  strictMono_nat_of_lt_succ fun bits => (middle_below bits).trans (middle_above (bits + 1))

-- The next magnitude is one place on, at the next power of two as well.
theorem middle_place {step place : Nat} (full : step = 0 ∨ 2 ^ 52 ≤ place) (below : place < 2 ^ 53) :
    middle (step * 2 ^ 52 + place) = (place + 1 / 2) * 2 ^ step := by
  rw [middle, units_place full below.le, Nat.add_assoc, units_place (by omega) (by omega)]
  push_cast
  ring

structure Rounds (q : ℚ) (bits : Nat) : Prop where
  low : ∀ below, below + 1 = bits → middle below ≤ q
  high : q ≤ middle bits
  lowEven : ∀ below, below + 1 = bits → middle below = q → bits % 2 = 0
  highEven : q = middle bits → bits % 2 = 0

namespace Rounds

theorem inside (low : ∀ below, below + 1 = bits → middle below < q) (high : q < middle bits) :
    Rounds q bits where
  low below next := (low below next).le
  high := high.le
  lowEven below next tie := absurd tie (low below next).ne
  highEven tie := absurd tie high.ne

theorem exact (bits : Nat) : Rounds (units bits) bits :=
  .inside (fun below next => next ▸ middle_below below) (middle_above bits)

-- Two numbers that share a middle are rounded from it to the same side.
theorem mono (rounds : Rounds q bits) (other : Rounds p later) (ordered : q ≤ p) : bits ≤ later := by
  by_contra behind
  obtain ⟨below, rfl⟩ : ∃ below, bits = below + 1 := ⟨bits - 1, by omega⟩
  have low := rounds.low below rfl
  have high := other.high
  have between : middle later ≤ middle below := middle_strict.monotone (by omega)
  have same : middle below = middle later := by linarith
  obtain rfl := middle_strict.injective same
  have odd := rounds.lowEven below rfl (by linarith)
  have even := other.highEven (by linarith)
  omega

theorem unique (rounds : Rounds q bits) (other : Rounds q later) : bits = later :=
  Nat.le_antisymm (rounds.mono other le_rfl) (other.mono rounds le_rfl)

theorem kept (rounds : Rounds (units later) bits) : bits = later := rounds.unique (.exact later)

end Rounds

structure Nearest (q : ℚ) (n : Nat) : Prop where
  low : n - 1 / 2 ≤ q
  high : q ≤ n + 1 / 2
  lowEven : n - 1 / 2 = q → n % 2 = 0
  highEven : q = n + 1 / 2 → n % 2 = 0

theorem roundedQuotient_nearest (num : Nat) {den : Nat} (positive : 0 < den) :
    Nearest (num / den) (roundedQuotient num den) := by
  have size : (0 : ℚ) < den := by exact_mod_cast positive
  have whole : (num : ℚ) = den * (num / den : Nat) + (num % den : Nat) := by
    exact_mod_cast (Nat.div_add_mod num den).symm
  have ratio : (num / den : ℚ) = (num / den : Nat) + (num % den : Nat) / den := by
    rw [whole]
    field_simp
  have less : (num % den : Nat) < den := Nat.mod_lt _ positive
  rw [ratio]
  unfold roundedQuotient
  dsimp only
  generalize num / den = quotient
  generalize num % den = rest at less ⊢
  have least : (0 : ℚ) ≤ rest / den := by positivity
  have below : (rest / den : ℚ) < 1 := by
    rw [div_lt_one size]
    exact_mod_cast less
  split
  · rename_i down
    have part : (rest / den : ℚ) < 1 / 2 := by
      rw [div_lt_iff₀ size]
      have : (2 * rest : ℚ) < den := by exact_mod_cast down
      linarith
    constructor <;> intros <;> linarith
  split
  · rename_i up
    have part : 1 / 2 < (rest / den : ℚ) := by
      rw [lt_div_iff₀ size]
      have : (den : ℚ) < 2 * rest := by exact_mod_cast up
      linarith
    constructor <;> push_cast <;> intros <;> linarith
  · have half : (rest / den : ℚ) = 1 / 2 := by
      rw [div_eq_iff size.ne']
      have : (2 * rest : ℚ) = den := by
        have same : 2 * rest = den := by omega
        exact_mod_cast same
      linarith
    rw [half]
    rcases Nat.mod_two_eq_zero_or_one quotient with even | odd
    · rw [even]
      constructor <;> push_cast <;> intros <;> first | exact even | linarith
    · rw [odd]
      constructor <;> push_cast <;> intros <;> first | omega | linarith

theorem pow_forward (base : Nat) {e : Int} (forward : 0 ≤ e) :
    ((Nat.pow base e.toNat : Nat) : ℚ) = (base : ℚ) ^ e := by
  obtain ⟨n, rfl⟩ := Int.eq_ofNat_of_zero_le forward
  simp

theorem pow_backward (base : Nat) {e : Int} (backward : ¬ 0 ≤ e) :
    ((Nat.pow base (-e).toNat : Nat) : ℚ) = ((base : ℚ) ^ e)⁻¹ := by
  obtain ⟨n, same⟩ := Int.eq_ofNat_of_zero_le (a := -e) (by omega)
  obtain rfl : e = -n := by omega
  simp

theorem log2_bounds {n : Nat} (some_n : 0 < n) :
    (2 : ℚ) ^ (n.log2 : Int) ≤ n ∧ (n : ℚ) < 2 ^ ((n.log2 : Int) + 1) := by
  constructor
  · rw [zpow_natCast]
    exact_mod_cast Nat.log2_self_le some_n.ne'
  · exact_mod_cast Nat.lt_log2_self (n := n)

section Exponent
variable {num den : Nat}

theorem ratio_bounds (some_num : 0 < num) (some_den : 0 < den) :
    (2 : ℚ) ^ ((num.log2 : Int) - den.log2 - 1) ≤ num / den ∧
    (num / den : ℚ) < 2 ^ ((num.log2 : Int) - den.log2 + 1) := by
  have size : (0 : ℚ) < den := by exact_mod_cast some_den
  have two : (2 : ℚ) ≠ 0 := by norm_num
  obtain ⟨num_low, num_high⟩ := log2_bounds some_num
  obtain ⟨den_low, den_high⟩ := log2_bounds some_den
  constructor
  · rw [le_div_iff₀ size]
    calc (2 : ℚ) ^ ((num.log2 : Int) - den.log2 - 1) * den
        ≤ 2 ^ ((num.log2 : Int) - den.log2 - 1) * 2 ^ ((den.log2 : Int) + 1) := by gcongr
      _ = 2 ^ (num.log2 : Int) := by
        rw [← zpow_add₀ two]
        congr 1
        omega
      _ ≤ num := num_low
  · rw [div_lt_iff₀ size]
    calc (num : ℚ) < 2 ^ ((num.log2 : Int) + 1) := num_high
      _ = 2 ^ ((num.log2 : Int) - den.log2 + 1) * 2 ^ (den.log2 : Int) := by
        rw [← zpow_add₀ two]
        congr 1
        omega
      _ ≤ 2 ^ ((num.log2 : Int) - den.log2 + 1) * den := by gcongr

theorem reached_exact (num : Nat) (some_den : 0 < den) (e : Int) :
    (if 0 ≤ e then den * Nat.pow 2 e.toNat ≤ num else den ≤ num * Nat.pow 2 (-e).toNat) ↔
      (2 : ℚ) ^ e ≤ num / den := by
  have size : (0 : ℚ) < den := by exact_mod_cast some_den
  rw [le_div_iff₀ size]
  split
  · rename_i forward
    have power : ((Nat.pow 2 e.toNat : Nat) : ℚ) = 2 ^ e := pow_forward 2 forward
    rw [← power, mul_comm]
    exact_mod_cast Iff.rfl
  · rename_i backward
    have power : ((Nat.pow 2 (-e).toNat : Nat) : ℚ) = (2 ^ e)⁻¹ := pow_backward 2 backward
    have positive : (0 : ℚ) < 2 ^ e := by positivity
    rw [← Nat.cast_le (α := ℚ), Nat.cast_mul, power, ← div_eq_mul_inv, le_div_iff₀ positive,
      mul_comm]

-- The ratio lies between two powers of two, but where the least exponent is reached.
theorem unitExponent_spec (some_num : 0 < num) (some_den : 0 < den) :
    -1074 ≤ unitExponent num den ∧
    (num / den : ℚ) < 2 ^ (unitExponent num den + 53) ∧
    (unitExponent num den = -1074 ∨ (2 : ℚ) ^ (unitExponent num den + 52) ≤ num / den) := by
  obtain ⟨beneath, above⟩ := ratio_bounds some_num some_den
  have reached := reached_exact num some_den
  unfold unitExponent
  dsimp only
  generalize (num.log2 : Int) - (den.log2 : Int) = estimate at above beneath ⊢
  have floor : ∀ floor : Int, (num / den : ℚ) < 2 ^ (floor + 1) → (2 : ℚ) ^ floor ≤ num / den →
      -1074 ≤ max (floor - 52) (-1074) ∧
      (num / den : ℚ) < 2 ^ (max (floor - 52) (-1074) + 53) ∧
      (max (floor - 52) (-1074) = -1074 ∨
        (2 : ℚ) ^ (max (floor - 52) (-1074) + 52) ≤ num / den) := by
    intro floor high low
    refine ⟨le_max_right _ _, high.trans_le ?_, ?_⟩
    · apply zpow_le_zpow_right₀ (by norm_num)
      omega
    · rcases le_total (floor - 52) (-1074) with least | normal
      · exact .inl (max_eq_right least)
      · rw [max_eq_left normal, Int.sub_add_cancel]
        exact .inr low
  by_cases full : (2 : ℚ) ^ estimate ≤ num / den
  · rw [if_pos ((reached estimate).mpr full)]
    exact floor estimate above full
  · rw [if_neg fun found => full ((reached estimate).mp found)]
    refine floor (estimate - 1) ?_ beneath
    rw [Int.sub_add_cancel]
    exact not_le.mp full

end Exponent

section Place
variable {step place : Nat} {t : ℚ}

-- The middle above is half a place on, but at the next power of two.
theorem place_high (bounded : t < 2 ^ 53) (filled : step = 0 ∨ 2 ^ 52 ≤ place) (top : place ≤ 2 ^ 53)
    (near : Nearest t place) : t * 2 ^ step ≤ middle (step * 2 ^ 52 + place) ∧
      (t * 2 ^ step = middle (step * 2 ^ 52 + place) → place % 2 = 0) := by
  have power : (0 : ℚ) < 2 ^ step := by positivity
  by_cases last : place = 2 ^ 53
  · have under : t * 2 ^ step < middle (step * 2 ^ 52 + place) := by
      refine lt_trans ?_ (middle_above _)
      rw [units_place filled top, last]
      push_cast
      exact mul_lt_mul_of_pos_right bounded power
    exact ⟨under.le, fun tie => absurd tie under.ne⟩
  · rw [middle_place filled (by omega)]
    refine ⟨mul_le_mul_of_nonneg_right near.high power.le, fun tie => near.highEven ?_⟩
    exact mul_right_cancel₀ power.ne' tie

theorem place_low (full : step = 0 ∨ 2 ^ 52 ≤ t) (filled : step = 0 ∨ 2 ^ 52 ≤ place)
    (top : place ≤ 2 ^ 53) (near : Nearest t place) (next : below + 1 = step * 2 ^ 52 + place) :
    middle below ≤ t * 2 ^ step ∧ (middle below = t * 2 ^ step → place % 2 = 0) := by
  have power : (0 : ℚ) < 2 ^ step := by positivity
  by_cases first : step ≠ 0 ∧ place = 2 ^ 52
  · have beyond : middle below < t * 2 ^ step := by
      refine (middle_below below).trans_le ?_
      rw [next, units_place filled top, first.2]
      push_cast
      exact mul_le_mul_of_nonneg_right (full.resolve_left first.1) power.le
    exact ⟨beyond.le, fun tie => absurd tie beyond.ne⟩
  · obtain ⟨before, rfl⟩ : ∃ before, place = before + 1 := ⟨place - 1, by omega⟩
    obtain rfl : below = step * 2 ^ 52 + before := by omega
    have half : middle (step * 2 ^ 52 + before) = ((before + 1 : Nat) - 1 / 2) * 2 ^ step := by
      rw [middle_place (by omega) (by omega)]
      push_cast
      ring
    rw [half]
    refine ⟨mul_le_mul_of_nonneg_right near.low power.le, fun tie => near.lowEven ?_⟩
    exact mul_right_cancel₀ power.ne' tie

theorem place_rounds (bounded : t < 2 ^ 53) (full : step = 0 ∨ 2 ^ 52 ≤ t) (near : Nearest t place) :
    Rounds (t * 2 ^ step) (step * 2 ^ 52 + place) := by
  have top : place ≤ 2 ^ 53 := by
    have : (place : ℚ) < (2 ^ 53 + 1 : Nat) := by push_cast; linarith [near.low]
    have : place < 2 ^ 53 + 1 := by exact_mod_cast this
    omega
  have filled : step = 0 ∨ 2 ^ 52 ≤ place := by
    refine full.imp_right fun low => ?_
    have : ((2 ^ 52 : Nat) : ℚ) < (place + 1 : Nat) := by push_cast; linarith [near.high]
    have : 2 ^ 52 < place + 1 := by exact_mod_cast this
    omega
  have even : place % 2 = 0 → (step * 2 ^ 52 + place) % 2 = 0 := by omega
  have high := place_high bounded filled top near
  have low := fun below (next : below + 1 = _) => place_low full filled top near next
  exact ⟨fun below next => (low below next).1, high.1,
    fun below next tie => even ((low below next).2 tie), fun tie => even (high.2 tie)⟩

end Place

theorem nearestBits_rounds {num den : Nat} (some_num : 0 < num) (some_den : 0 < den) :
    Rounds (num / den * unitsInOne) (nearestBits num den) := by
  obtain ⟨least, high, low⟩ := unitExponent_spec some_num some_den
  unfold nearestBits
  dsimp only
  generalize unitExponent num den = unit at least high low ⊢
  have two : (2 : ℚ) ≠ 0 := by norm_num
  have power : (0 : ℚ) < 2 ^ unit := by positivity
  have steps : (2 : ℚ) ^ (unit + 1074).toNat = 2 ^ unit * unitsInOne := by
    rw [← zpow_natCast, Int.toNat_of_nonneg (by omega), zpow_add₀ two, unitsInOne_power]
  have scale : (num / den : ℚ) * unitsInOne = num / den / 2 ^ unit * 2 ^ (unit + 1074).toNat := by
    rw [steps, ← mul_assoc, div_mul_cancel₀ _ power.ne']
  have places : Nearest (num / den / 2 ^ unit : ℚ)
      (if 0 ≤ unit then roundedQuotient num (den * Nat.pow 2 unit.toNat)
        else roundedQuotient (num * Nat.pow 2 (-unit).toNat) den) := by
    split
    · rename_i forward
      have near := roundedQuotient_nearest num
        (Nat.mul_pos some_den (Nat.two_pow_pos unit.toNat))
      have divisor : ((Nat.pow 2 unit.toNat : Nat) : ℚ) = 2 ^ unit := pow_forward 2 forward
      rwa [Nat.cast_mul, ← Nat.pow_eq, divisor, ← div_div] at near
    · rename_i backward
      have near := roundedQuotient_nearest (num * Nat.pow 2 (-unit).toNat) some_den
      have factor : ((Nat.pow 2 (-unit).toNat : Nat) : ℚ) = (2 ^ unit)⁻¹ := pow_backward 2 backward
      rwa [Nat.cast_mul, factor, ← div_eq_mul_inv, div_right_comm] at near
  rw [scale]
  apply place_rounds _ _ places
  · rw [div_lt_iff₀ power, ← zpow_natCast, ← zpow_add₀ two, add_comm]
    exact_mod_cast high
  · refine low.imp (fun reached => by omega) fun full => ?_
    rw [le_div_iff₀ power, ← zpow_natCast, ← zpow_add₀ two, add_comm]
    exact_mod_cast full

end InSitu.Decimal
