import InSitu.Proofs.Decimal.Stepwise
import InSitu.Proofs.Decimal.Whole
import InSitu.Proofs.Json.Record
import Mathlib
namespace InSitu.Json
open Decimal

theorem digitsValue_append (front behind : List Char) : digitsValue (front ++ behind) =
    10 ^ behind.length * digitsValue front + digitsValue behind := by
  show Nat.ofDigitChars 10 (front ++ behind) 0 = _
  rw [Nat.ofDigitChars_append, Nat.ofDigitChars_eq_ofDigitChars_zero]
  rfl

theorem digitsValue_zeros (n : Nat) : digitsValue (zeros n) = 0 := by
  show Nat.ofDigitChars 10 (List.replicate n '0') 0 = 0
  rw [Nat.ofDigitChars_replicate_zero, Nat.mul_zero]

theorem digitsValue_zero : digitsValue ['0'] = 0 := rfl

theorem ofDigitChars_grows (chars : List Char) (value : Nat) :
    value ≤ Nat.ofDigitChars 10 chars value := by
  rw [Nat.ofDigitChars_eq_ofDigitChars_zero]
  have power : 0 < 10 ^ chars.length := Nat.pow_pos (by omega)
  have more := Nat.le_mul_of_pos_left value power
  omega

theorem gather_all (value : Nat) (chars : List Char)
    (below : Nat.ofDigitChars 10 chars value < 2 ^ 64) :
    gather value chars = (Nat.ofDigitChars 10 chars value, 0) := by
  induction chars generalizing value with
  | nil => rfl
  | cons c rest ih =>
    rw [Nat.ofDigitChars_cons] at below ⊢
    have next : 10 * value + (c.toNat - '0'.toNat) < Nat.pow 2 64 :=
      (ofDigitChars_grows rest _).trans_lt below
    rw [← ih _ below]
    exact if_pos next

theorem gathered_scaled {n : Numeral} (below : n.scaled.digits < 2 ^ 64) : n.gathered = n.scaled := by
  have together : n.scaled.digits =
      Nat.ofDigitChars 10 (n.fraction.getD []) (Nat.ofDigitChars 10 n.whole 0) := by
    rw [← Nat.ofDigitChars_append]
    rfl
  rw [together] at below
  have whole := gather_all 0 n.whole ((ofDigitChars_grows _ _).trans_lt below)
  have fraction := gather_all _ _ below
  unfold Numeral.gathered
  dsimp only
  rw [whole]
  dsimp only
  rw [fraction, ← together]
  simp [Numeral.scaled]

def Spells (chars : List Char) (d : Scaled) : Prop :=
  ∀ negative, ∃ n, Numeral.ofUnsigned? negative chars = some n ∧ n.negative = negative ∧ n.scaled = d

theorem digits_each (m : Nat) : ∀ c ∈ digitChars m, c.isDigit = true := fun _ => digitChars_digit

theorem zeros_each (n : Nat) : ∀ c ∈ zeros n, c.isDigit = true := by
  intro c member
  rw [List.eq_of_mem_replicate member]
  rfl

theorem zero_each : ∀ c ∈ ['0'], c.isDigit = true := zeros_each 1

section Placed
variable {m : Nat} {e : Int}

theorem placed_below (below : e < 0) : Spells (placed true ⟨digitChars m, e⟩)
    ⟨m, e + 1 - (digitChars m).length⟩ := by
  intro negative
  have each : ∀ c ∈ zeros ((-e).toNat - 1) ++ digitChars m, c.isDigit = true :=
    List.forall_mem_append.mpr ⟨zeros_each _, digits_each m⟩
  have some_digits : zeros ((-e).toNat - 1) ++ digitChars m ≠ [] := by
    simp [digitChars, Nat.toDigits_ne_nil]
  have fraction := fraction_spelled each some_digits (by simp : ∀ c ∈ ([] : List Char).head?, _)
  have read := ofUnsigned_spelled zero_each (by decide) (by simp)
    fraction rfl negative
  refine ⟨⟨negative, ['0'], some (zeros ((-e).toNat - 1) ++ digitChars m), none⟩, ?_, rfl, ?_⟩
  · unfold placed
    rw [if_pos below, ← read]
    simp
  · have len : (zeros ((-e).toNat - 1)).length = (-e).toNat - 1 := List.length_replicate
    simp only [Numeral.scaled, Option.getD_some, Option.getD_none, digitsValue_append,
      digitsValue_zeros, digitsValue_digits, digitsValue_zero, List.length_append, len]
    congr 1
    · simp
    · push_cast
      omega

theorem lead_head (positive : 0 < m) (rest : List Char) : ¬ (digitChars m ++ rest = [] ∨
    ((digitChars m ++ rest).head? = some '0' ∧ (digitChars m ++ rest).length ≠ 1)) := by
  obtain ⟨c, behind, digits, lead⟩ := digitChars_lead positive
  simp [digits, lead]

theorem placed_whole (positive : 0 < m) (whole : 0 ≤ e) (short : (digitChars m).length ≤ e.toNat + 1) :
    Spells (placed true ⟨digitChars m, e⟩)
      ⟨10 * (10 ^ (e.toNat + 1 - (digitChars m).length) * m), -1⟩ := by
  intro negative
  have each : ∀ c ∈ digitChars m ++ zeros (e.toNat + 1 - (digitChars m).length), c.isDigit = true :=
    List.forall_mem_append.mpr ⟨digits_each m, zeros_each _⟩
  have fraction := fraction_spelled zero_each (by simp)
    (by simp : ∀ c ∈ ([] : List Char).head?, _)
  have read := ofUnsigned_spelled each (lead_head positive _) (by simp [Char.isDigit]) fraction rfl
    negative
  refine ⟨⟨negative, digitChars m ++ zeros (e.toNat + 1 - (digitChars m).length), some ['0'], none⟩,
    ?_, rfl, ?_⟩
  · unfold placed
    rw [if_neg (Int.not_lt.mpr whole), ← read]
    dsimp only
    rw [List.drop_eq_nil_of_le short, List.take_of_length_le short]
    simp
  · have len : (zeros (e.toNat + 1 - (digitChars m).length)).length =
        e.toNat + 1 - (digitChars m).length := List.length_replicate
    simp only [Numeral.scaled, Option.getD_some, Option.getD_none, digitsValue_append,
      digitsValue_zeros, digitsValue_digits, digitsValue_zero, len]
    congr 1

theorem placed_parted (positive : 0 < m) (whole : 0 ≤ e) (long : e.toNat + 1 < (digitChars m).length) :
    Spells (placed true ⟨digitChars m, e⟩) ⟨m, e + 1 - (digitChars m).length⟩ := by
  intro negative
  have front : ∀ c ∈ (digitChars m).take (e.toNat + 1), c.isDigit = true :=
    fun c member => digits_each m c (List.mem_of_mem_take member)
  have behind : ∀ c ∈ (digitChars m).drop (e.toNat + 1), c.isDigit = true :=
    fun c member => digits_each m c (List.mem_of_mem_drop member)
  have some_digits : (digitChars m).drop (e.toNat + 1) ≠ [] := by
    simpa using long
  have leads : ¬ ((digitChars m).take (e.toNat + 1) = [] ∨
      (((digitChars m).take (e.toNat + 1)).head? = some '0' ∧
        ((digitChars m).take (e.toNat + 1)).length ≠ 1)) := by
    obtain ⟨c, rest, digits, lead⟩ := digitChars_lead positive
    simp [digits, lead]
  have fraction := fraction_spelled behind some_digits (by simp : ∀ c ∈ ([] : List Char).head?, _)
  have read := ofUnsigned_spelled front leads (by simp [Char.isDigit]) fraction rfl negative
  refine ⟨⟨negative, (digitChars m).take (e.toNat + 1), some ((digitChars m).drop (e.toNat + 1)),
    none⟩, ?_, rfl, ?_⟩
  · unfold placed
    rw [if_neg (Int.not_lt.mpr whole), ← read]
    dsimp only
    have filled : e.toNat + 1 - (digitChars m).length = 0 := by omega
    cases rest : (digitChars m).drop (e.toNat + 1) with
    | nil => exact absurd rest some_digits
    | cons c more => simp [filled, zeros]
  · simp only [Numeral.scaled, Option.getD_some, Option.getD_none, List.take_append_drop,
      digitsValue_digits, List.length_drop]
    congr 1
    omega

theorem placed_spelled (positive : 0 < m) (e : Int) :
    Spells (placed true ⟨digitChars m, e + (digitChars m).length - 1⟩)
      (if 0 ≤ e then ⟨10 * (10 ^ e.toNat * m), -1⟩ else ⟨m, e⟩) := by
  have some_digits : 0 < (digitChars m).length := List.length_pos_of_ne_nil Nat.toDigits_ne_nil
  have back : e + (digitChars m).length - 1 + 1 - (digitChars m).length = e := by omega
  have places : (e + (digitChars m).length - 1).toNat + 1 - (digitChars m).length = e.toNat := by
    omega
  by_cases whole : 0 ≤ e
  · have spelled := placed_whole (e := e + (digitChars m).length - 1) positive (by omega) (by omega)
    rw [places] at spelled
    rwa [if_pos whole]
  rw [if_neg whole]
  rcases Int.lt_or_le (e + (digitChars m).length - 1) 0 with below | within
  · have spelled := placed_below (m := m) below
    rwa [back] at spelled
  · have spelled := placed_parted positive within (by omega)
    rwa [back] at spelled

theorem pointed_value (m : Nat) (whole : 0 ≤ e) :
    (⟨10 * (10 ^ e.toNat * m), -1⟩ : Scaled).value = (⟨m, e⟩ : Scaled).value := by
  have power : (10 : ℚ) ^ e.toNat = 10 ^ e := by
    rw [← zpow_natCast, Int.toNat_of_nonneg whole]
  simp only [Scaled.value]
  push_cast
  rw [power, zpow_neg_one]
  ring

theorem scientific_spelled (positive : 0 < m) (e : Int) :
    Spells (scientific ⟨digitChars m, e⟩) ⟨m, e + 1 - (digitChars m).length⟩ := by
  intro negative
  have worth := digitsValue_digits m
  have each := digits_each m
  obtain ⟨first, rest, digits, lead⟩ := digitChars_lead positive
  have marked := exponent_spelled e
  rw [digits] at worth each ⊢
  have one : ∀ c ∈ [first], c.isDigit = true := fun c member => each c (by simp_all)
  have leads : ¬ ([first] = [] ∨ ([first].head? = some '0' ∧ [first].length ≠ 1)) := by simp
  unfold scientific
  cases rest with
  | nil =>
    have read := ofUnsigned_spelled one leads (by simp [Char.isDigit])
      (rfl : fraction? ('e' :: (if e < 0 then '-' else '+') :: digitChars e.natAbs) = some (none, _))
      marked negative
    exact ⟨_, read, rfl, by simp [Numeral.scaled, worth]⟩
  | cons second more =>
    have behind : ∀ c ∈ second :: more, c.isDigit = true :=
      fun c member => each c (List.mem_cons_of_mem _ member)
    have fraction := fraction_spelled behind (by simp)
      (by simp [Char.isDigit] : ∀ c ∈ ('e' :: (if e < 0 then '-' else '+') ::
        digitChars e.natAbs).head?, c.isDigit = false)
    have read := ofUnsigned_spelled one leads (by simp [Char.isDigit]) fraction marked negative
    refine ⟨⟨negative, [first], some (second :: more), some e⟩, ?_, rfl, ?_⟩
    · rw [← read]
      simp
    · simp only [Numeral.scaled, Option.getD_some, List.singleton_append, worth]
      congr 1
      simp only [List.length_cons]
      push_cast
      omega

end Placed

-- The greatest finite magnitude is written with digits that are read in steps.
theorem lost_unwritten (positive : 0 < mag) (finite : mag < infinityBits)
    (shown : (shortest .even mag).significant = ⟨digitChars m, e + (digitChars m).length - 1⟩)
    (near : nearest? ⟨m, e⟩ = some mag) : (⟨m, e⟩ : Scaled) ≠ lost := by
  intro same
  cases same
  have last : nearest? ⟨17976931348623158, 292⟩ = some (infinityBits - 1) := by decide +kernel
  obtain rfl := Option.some.inj (near.symm.trans last)
  have digits : (shortest .even (infinityBits - 1)).significant.digits =
      digitChars 17976931348623157 := by decide +kernel
  rw [shown] at digits
  have other : 17976931348623158 = 17976931348623157 := digitChars_inj digits
  exact absurd other (by decide)

-- What a finite double is written as: up to seventeen digits, and the double is nearest to them.
theorem magnitude_spelled (finite : mag < infinityBits) :
    ∃ d, Spells (Layout.json.magnitude mag) d ∧ nearest? d = some mag ∧ d.digits ≤ 10 ^ 17 ∧
      d ≠ lost := by
  unfold Layout.magnitude
  by_cases zero : mag = 0
  · rw [if_pos zero, zero]
    refine ⟨⟨0, -1⟩, ?_, rfl, by norm_num, by decide⟩
    intro negative
    cases negative <;> exact ⟨_, rfl, rfl, rfl⟩
  rw [if_neg zero]
  have positive := Nat.pos_of_ne_zero zero
  obtain ⟨some_digits, few, near⟩ := shortest_spec .even positive finite
  obtain ⟨m, e, some_m, fewer, worth, shown⟩ := significant_exact some_digits
  have reads : nearest? ⟨m, e⟩ = some mag := (nearest_value some_m worth).trans near
  have kept := lost_unwritten positive finite shown reads
  have tie : Layout.json.tie = .even := rfl
  have pointed : Layout.json.pointed = true := rfl
  rw [tie, pointed, shown]
  dsimp only
  split
  · rename_i plain
    simp only [Layout.isPlain, Layout.json, Option.all_some, Bool.and_eq_true, decide_eq_true_eq]
      at plain
    have spelled := placed_spelled some_m e
    by_cases whole : 0 ≤ e
    · rw [if_pos whole] at spelled
      refine ⟨_, spelled, ?_, ?_, ?_⟩
      · rw [← reads]
        exact nearest_value (by positivity) (pointed_value m whole)
      · have room : e.toNat + (digitChars m).length ≤ 16 := by omega
        have less := (digitChars_length m some_m).2
        calc 10 * (10 ^ e.toNat * m) ≤ 10 * (10 ^ e.toNat * 10 ^ (digitChars m).length) := by
              gcongr
          _ = 10 * 10 ^ (e.toNat + (digitChars m).length) := by rw [← Nat.pow_add]
          _ ≤ 10 * 10 ^ 16 := Nat.mul_le_mul_left _ (Nat.pow_le_pow_right (by omega) room)
          _ = 10 ^ 17 := by norm_num
      · intro same
        have exponents : (-1 : Int) = 292 := congrArg Scaled.exponent same
        exact absurd exponents (by decide)
    · rw [if_neg whole] at spelled
      exact ⟨_, spelled, reads, fewer.trans few, kept⟩
  · have spelled := scientific_spelled some_m (e + (digitChars m).length - 1)
    have back : e + (digitChars m).length - 1 + 1 - (digitChars m).length = e := by omega
    rw [back] at spelled
    exact ⟨_, spelled, reads, fewer.trans few, kept⟩

theorem finite_spelled {bits : Nat} (spells : Spells (Layout.json.magnitude (bits % signBit)) d) :
    ∃ n, Numeral.ofChars? (Layout.json.finite bits) = some n ∧
      n.negative = decide (signBit ≤ bits) ∧ n.scaled = d := by
  obtain ⟨n, read, sign, worth⟩ := spells (decide (signBit ≤ bits))
  refine ⟨n, ?_, sign, worth⟩
  unfold Layout.finite
  by_cases negative : signBit ≤ bits
  · rw [decide_eq_true negative] at read
    rw [if_pos negative, List.singleton_append, ofChars_negative, read]
  · rw [decide_eq_false negative] at read
    rw [if_neg negative, List.nil_append, ofChars_read read]

theorem ofFloat_spelled {x : Float} (finite : finiteBits x.toBits.toNat = true) :
    ∃ n, ofFloat x = .number (Layout.json.finite x.toBits.toNat) ∧
      Numeral.ofChars? (Layout.json.finite x.toBits.toNat) = some n ∧
      n.negative = decide (signBit ≤ x.toBits.toNat) ∧
      nearest? n.gathered = some (x.toBits.toNat % signBit) ∧ n.gathered.digits ≤ 10 ^ 17 ∧
      n.gathered ≠ lost := by
  have small : x.toBits.toNat % signBit < infinityBits := of_decide_eq_true finite
  obtain ⟨d, spells, near, few, kept⟩ := magnitude_spelled small
  obtain ⟨n, read, sign, worth⟩ := finite_spelled spells
  have gathered : n.gathered = d := by
    rw [← worth]
    apply gathered_scaled
    rw [worth]
    exact few.trans_lt (by norm_num)
  exact ⟨n, if_pos finite, read, sign, by rw [gathered, near], by rw [gathered]; exact few,
    by rw [gathered]; exact kept⟩

theorem double_accepted (x : Float) :
    (double? (some (ofFloat x))).isSome ↔ finiteBits x.toBits.toNat = true := by
  constructor
  · intro accepted
    by_contra other
    have nothing : ofFloat x = .null := if_neg other
    rw [nothing] at accepted
    cases accepted
  · intro finite
    obtain ⟨n, written, read, -, near, few, kept⟩ := ofFloat_spelled finite
    have reached : (stepwise? n.gathered).isSome := by
      rcases Nat.eq_zero_or_pos n.gathered.digits with zero | positive
      · simp [stepwise?, zero]
      · exact stepwise_accepts positive few near kept
    rw [written, double?, read, Option.bind_some, Numeral.double?, Option.isSome_map]
    exact reached

-- The number that is written has its digits in 53 bits, and a power of ten that is a double.
def Direct (x : Float) : Prop := ∃ n, Numeral.ofChars? (Layout.json.finite x.toBits.toNat) = some n ∧
  n.gathered.digits < 2 ^ 53 ∧ -22 ≤ n.gathered.exponent ∧ n.gathered.exponent ≤ 22

def Whole (x : Float) : Prop := ∃ n ≤ 2 ^ 48, units (x.toBits.toNat % signBit) = n * unitsInOne

theorem whole_spelled {mag n : Nat} (finite : mag < infinityBits) (bounded : n ≤ 2 ^ 48)
    (worth : units mag = n * unitsInOne) :
    ∃ digits < 2 ^ 53, Spells (Layout.json.magnitude mag) ⟨digits, -1⟩ := by
  unfold Layout.magnitude
  by_cases zero : mag = 0
  · rw [if_pos zero]
    refine ⟨0, by norm_num, ?_⟩
    intro negative
    cases negative <;> exact ⟨_, rfl, rfl, rfl⟩
  rw [if_neg zero]
  obtain ⟨m, places, some_m, near, shown⟩ :=
    whole_significant .even (Nat.pos_of_ne_zero zero) finite worth
  obtain ⟨least, -⟩ := digitChars_length m some_m
  have some_digits : 0 < (digitChars m).length := List.length_pos_of_ne_nil Nat.toDigits_ne_nil
  -- The first digit stands low enough for all digits to be written in plain places.
  have low : places + ((digitChars m).length - 1) < 15 := by
    apply (Nat.pow_lt_pow_iff_right (by omega : 1 < 10)).mp
    calc 10 ^ (places + ((digitChars m).length - 1))
        = 10 ^ ((digitChars m).length - 1) * 10 ^ places := by rw [Nat.add_comm, Nat.pow_add]
      _ ≤ m * 10 ^ places := Nat.mul_le_mul_right _ least
      _ ≤ 2 * n := near
      _ < 10 ^ 15 := by omega
  have plain : Layout.json.isPlain ((places : Int) + (digitChars m).length - 1) = true := by
    simp only [Layout.isPlain, Layout.json, Option.all_some, Bool.and_eq_true, decide_eq_true_eq]
    omega
  have tie : Layout.json.tie = .even := rfl
  have pointed : Layout.json.pointed = true := rfl
  rw [tie, pointed, shown]
  dsimp only
  rw [if_pos plain]
  have spelled := placed_spelled some_m places
  rw [if_pos (Int.natCast_nonneg places), Int.toNat_natCast, Nat.mul_comm (10 ^ places)] at spelled
  exact ⟨_, by omega, spelled⟩

theorem whole_direct {x : Float} (finite : finiteBits x.toBits.toNat = true) (whole : Whole x) :
    Direct x := by
  obtain ⟨n, bounded, worth⟩ := whole
  obtain ⟨digits, small, spells⟩ := whole_spelled (of_decide_eq_true finite) bounded worth
  obtain ⟨numeral, read, -, scaled⟩ := finite_spelled spells
  have below : numeral.scaled.digits < 2 ^ 53 := by
    rw [scaled]
    exact small
  have gathered := gathered_scaled (below.trans (by norm_num))
  refine ⟨numeral, read, ?_⟩
  rw [gathered, scaled]
  exact ⟨small, by norm_num, by norm_num⟩

theorem double_direct {x : Float} (finite : finiteBits x.toBits.toNat = true) (direct : Direct x) :
    double? (some (ofFloat x)) = some x := by
  obtain ⟨n, written, read, sign, near, -, -⟩ := ofFloat_spelled finite
  obtain ⟨other, again, small, least, most⟩ := direct
  obtain rfl := Option.some.inj (read.symm.trans again)
  have whole : (if n.negative then signBit + x.toBits.toNat % signBit else x.toBits.toNat % signBit) =
      x.toBits.toNat := by
    have size : x.toBits.toNat < 2 * signBit := x.toBits.toNat_lt
    rw [sign]
    by_cases negative : signBit ≤ x.toBits.toNat
    · rw [decide_eq_true negative, if_pos rfl, Nat.mod_eq_sub_mod negative,
        Nat.mod_eq_of_lt (by omega)]
      omega
    · rw [decide_eq_false negative, if_neg Bool.false_ne_true]
      exact Nat.mod_eq_of_lt (Nat.not_le.mp negative)
  rw [written, double?, read, Option.bind_some, Numeral.double?, stepwise_nearest small least most,
    near, Option.map_some, Numeral.signed, whole]
  exact congrArg some ((congrArg Float.ofBits UInt64.ofNat_toNat).trans (Float.ofBits_toBits x))

end InSitu.Json
