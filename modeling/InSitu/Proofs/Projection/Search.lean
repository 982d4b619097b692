import InSitu.Proofs.Projection.Agreement
namespace InSitu

namespace Outcome
variable {equal : Nat → Outcome ε Bool} {slots : List Nat}

def holds : Outcome ε Bool → Bool
  | .ok equal => equal
  | .error _ => false

theorem holds_exact {outcome : Outcome ε Bool} : outcome.holds = true ↔ outcome = .ok true := by
  rcases outcome with failure | same
  · simp [holds]
  · cases same <;> simp [holds]

theorem findM_hit : slots.findM? equal = .ok (some hit) ↔ ∃ front back, slots = front ++ hit :: back ∧
    equal hit = .ok true ∧ ∀ other ∈ front, equal other = .ok false := by
  induction slots with
  | nil => simp [List.findM?, pure, Except.pure]
  | cons slot rest ih =>
    rw [List.findM?]
    constructor
    · intro found
      cases compared : equal slot with
      | error failure =>
        rw [compared] at found
        cases found
      | ok same =>
        rw [compared] at found
        cases same with
        | true =>
          cases found
          exact ⟨[], rest, rfl, compared, by simp⟩
        | false =>
          obtain ⟨front, back, rfl, hits, differ⟩ := ih.mp found
          exact ⟨slot :: front, back, rfl, hits, List.forall_mem_cons.mpr ⟨compared, differ⟩⟩
    · rintro ⟨front, back, split, hits, differ⟩
      cases front with
      | nil =>
        cases split
        rw [hits]
        rfl
      | cons first front =>
        cases split
        obtain ⟨differs, differ⟩ := List.forall_mem_cons.mp differ
        rw [differs]
        exact ih.mpr ⟨front, back, rfl, hits, differ⟩

theorem findM_missed : slots.findM? equal = .ok none ↔ ∀ other ∈ slots, equal other = .ok false := by
  induction slots with
  | nil => simp [List.findM?, pure, Except.pure]
  | cons slot rest ih =>
    rw [List.findM?, List.forall_mem_cons, ← ih]
    rcases equal slot with failure | same
    · simp [bind, Except.bind]
    · cases same <;> simp [bind, Except.bind, pure, Except.pure]

theorem findM_answers (each : ∀ slot ∈ slots, ∃ same, equal slot = .ok same) :
    ∃ found, slots.findM? equal = .ok found := by
  induction slots with
  | nil => exact ⟨none, rfl⟩
  | cons slot rest ih =>
    obtain ⟨⟨same, compared⟩, others⟩ := List.forall_mem_cons.mp each
    rw [List.findM?, compared]
    cases same with
    | true => exact ⟨some slot, rfl⟩
    | false => exact ih others

end Outcome

namespace Session
variable [Scalar α] {objects : List ο} {value : α}

def equalAt (objects : List ο) (value : α) (s : Session ο α) (place : Nat) :
    Outcome ProjectionError Bool :=
  (valueAt objects place s).1.map (· == value)

theorem equalAt_steady {s later : Session ο α} (steady : Steady objects s later) :
    equalAt objects value later = equalAt objects value s :=
  funext fun place => congrArg (Except.map (· == value)) (valueAt_steady steady place)

theorem equalAt_inside {s : Session ο α} (inside : slot < s.buffer.size) :
    equalAt objects value s slot = (readSlot objects slot s).1.map (· == value) := by
  rw [equalAt, valueAt_inside inside]

theorem equalAt_answered {s : Session ο α} (answered : equalAt objects value s slot = .ok same) :
    slot < s.buffer.size := by
  apply Classical.byContradiction
  intro outside
  simp only [equalAt, valueAt, Act.bind_exact, Act.get_exact, if_neg outside] at answered
  cases answered

-- The slots behind one that was read are still inside, and compare as they did.
theorem compares_behind (objects : List ο) (value : α) {s : Session ο α}
    (inside : ∀ other ∈ slot :: rest, other < s.buffer.size) :
    slot < s.buffer.size ∧
    (∀ other ∈ rest, other < (readSlot (ε := ProjectionError) objects slot s).2.buffer.size) ∧
    equalAt objects value (readSlot (ε := ProjectionError) objects slot s).2 = equalAt objects value s := by
  obtain ⟨below, others⟩ := List.forall_mem_cons.mp inside
  have steady : Steady objects s (readSlot (ε := ProjectionError) objects slot s).2 :=
    readSlot_steady (.same objects) below
  refine ⟨below, fun other member => ?_, equalAt_steady steady⟩
  rw [steady.alike.size]
  exact others other member

theorem firstIn_answer {s : Session ο α} (inside : ∀ slot ∈ slots, slot < s.buffer.size) :
    (firstIn (readSlot objects) value slots s).1 = slots.findM? (equalAt objects value s) := by
  induction slots generalizing s with
  | nil => rfl
  | cons slot rest ih =>
    obtain ⟨below, others, same⟩ := compares_behind objects value inside
    have later := ih others
    simp only [firstIn, List.findM?, Act.bind_exact, equalAt_inside below]
    rcases read : readSlot (ε := ProjectionError) objects slot s with ⟨failure | found, reached⟩
    · rfl
    · rw [same, read] at later
      cases equal : found == value with
      | true =>
        simp only [Except.map, equal, if_true]
        rfl
      | false =>
        simp only [Except.map, equal, Bool.false_eq_true, if_false]
        exact later

theorem hitsIn_answer {s : Session ο α} (inside : ∀ slot ∈ slots, slot < s.buffer.size)
    (hits : List Nat) :
    (hitsIn (ε := ProjectionError) (readSlot objects) value slots s).1 = .ok hits ↔
      (∀ slot ∈ slots, ∃ same, equalAt objects value s slot = .ok same) ∧
        hits = slots.filter fun slot => (equalAt objects value s slot).holds := by
  induction slots generalizing s hits with
  | nil => simp [hitsIn, Act.pure_exact, eq_comm]
  | cons slot rest ih =>
    obtain ⟨below, others, same⟩ := compares_behind objects value inside
    have later := ih others
    simp only [hitsIn, Act.bind_answer, Act.pure_exact, List.forall_mem_cons, List.filter_cons,
      equalAt_inside below]
    rcases read : readSlot (ε := ProjectionError) objects slot s with ⟨failure | found, reached⟩
    · simp [bind, Except.bind, Except.map]
    · rw [same, read] at later
      rcases ran : (hitsIn (ε := ProjectionError) (readSlot objects) value rest reached).1 with
        failure | more
      · simp only [bind, Except.bind, reduceCtorEq, false_iff]
        rintro ⟨⟨-, each⟩, -⟩
        cases ran.symm.trans ((later _).mpr ⟨each, rfl⟩)
      · obtain ⟨each, rfl⟩ := (later more).mp ran
        constructor
        · intro answered
          cases answered
          exact ⟨⟨⟨found == value, rfl⟩, each⟩, rfl⟩
        · rintro ⟨-, rfl⟩
          rfl

def logged (objects : List ο) (slot : Nat) : Act (Session ο α × List Nat) ε α := fun s =>
  ((readSlot objects slot s.1).1, (readSlot (ε := ε) objects slot s.1).2, s.2 ++ [slot])

theorem hitsIn_logged {s : Session ο α}
    (answered : hitsIn (ε := ε) (readSlot objects) value slots s = (.ok hits, reached)) (log : List Nat) :
    hitsIn (ε := ε) (logged objects) value slots (s, log) = (.ok hits, reached, log ++ slots) := by
  induction slots generalizing s hits log with
  | nil =>
    cases answered
    rw [List.append_nil]
    rfl
  | cons slot rest ih =>
    rw [hitsIn, Act.bind_exact] at answered ⊢
    rcases read : readSlot (ε := ε) objects slot s with ⟨failure | found, between⟩ <;>
      rw [read] at answered
    · cases answered
    · have written : logged (ε := ε) objects slot (s, log) = (.ok found, between, log ++ [slot]) := by
        simp only [logged, read]
      rw [written]
      simp only [Act.bind_exact] at answered ⊢
      rcases ran : hitsIn (ε := ε) (readSlot objects) value rest between with ⟨failure | more, last⟩ <;>
        rw [ran] at answered <;> cases answered
      rw [ih ran, List.append_assoc]
      rfl

theorem linearSearch_answer (objects : List ο) (value : α) (start : Nat) (s : Session ο α) :
    (linearSearch (ε := ProjectionError) objects value start s).1 =
      ((List.range s.buffer.size).drop start).findM? (equalAt objects value s) := by
  have asked : linearSearch (ε := ProjectionError) objects value start s =
      firstIn (readSlot objects) value ((List.range s.buffer.size).drop start) s :=
    congrFun (searchIn_exact ..) s
  rw [asked]
  exact firstIn_answer fun slot member => List.mem_range.mp (List.mem_of_mem_drop member)

theorem lookupAll_answer (objects : List ο) (value : α) (s : Session ο α) (places : List Nat) :
    (lookupAll (ε := ProjectionError) objects value s).1 = .ok places ↔
      (∀ place < s.buffer.size, ∃ same, equalAt objects value s place = .ok same) ∧
        places = (List.range s.buffer.size).filter fun place => (equalAt objects value s place).holds := by
  rw [lookupAll_exact, hitsIn_answer fun slot member => List.mem_range.mp member]
  simp only [List.mem_range]

theorem ahead_member : place ∈ (List.range size).drop start ↔ start ≤ place ∧ place < size := by
  rw [range_ahead, List.mem_range'_1]
  omega

theorem linearSearch_hit (objects : List ο) (value : α) (start place : Nat) (s : Session ο α) :
    (linearSearch (ε := ProjectionError) objects value start s).1 = .ok (some place) ↔
      start ≤ place ∧ equalAt objects value s place = .ok true ∧
        ∀ other, start ≤ other → other < place → equalAt objects value s other = .ok false := by
  rw [linearSearch_answer, Outcome.findM_hit]
  constructor
  · rintro ⟨front, back, split, equal, differ⟩
    obtain ⟨ahead, -, rfl, -⟩ := range_split.mp split
    exact ⟨ahead, equal, fun other after below => differ other (ahead_member.mpr ⟨after, below⟩)⟩
  · rintro ⟨ahead, equal, differ⟩
    refine ⟨_, _, range_split.mpr ⟨ahead, equalAt_answered equal, rfl, rfl⟩, equal, ?_⟩
    intro other member
    obtain ⟨after, below⟩ := ahead_member.mp member
    exact differ other after below

theorem lookupAll_hits {s : Session ο α}
    (answered : (lookupAll (ε := ProjectionError) objects value s).1 = .ok places) :
    places.Pairwise (· < ·) ∧ ∀ place, place ∈ places ↔ equalAt objects value s place = .ok true := by
  obtain ⟨each, rfl⟩ := (lookupAll_answer ..).mp answered
  refine ⟨List.pairwise_lt_range.filter _, fun place => ?_⟩
  rw [List.mem_filter, List.mem_range, Outcome.holds_exact]
  exact ⟨And.right, fun equal => ⟨equalAt_answered equal, equal⟩⟩

theorem lookupRounds_ends (objects : List ο) (value : α) {s : Session ο α} (enough : s.buffer.size < rounds) :
    lookupRounds (ε := ProjectionError) objects value rounds 0 s = lookupAll objects value s := by
  rw [lookupAll_exact, lookupRounds_exact, hitsFrom_exact _ value enough, List.drop_zero]

theorem hitsFrom_logged {s : Session ο α}
    (answered : lookupAll (ε := ProjectionError) objects value s = (.ok places, reached)) :
    hitsFrom (ε := ProjectionError) (logged objects) value s.buffer.size (s.buffer.size + 1) 0 (s, []) =
      (.ok places, reached, List.range s.buffer.size) := by
  have enough : s.buffer.size - 0 < s.buffer.size + 1 := Nat.lt_succ_self _
  rw [lookupAll_exact] at answered
  rw [hitsFrom_exact _ value enough, List.drop_zero]
  exact hitsIn_logged answered []

structure Searches (objects : List ο) (value : α) (s : Session ο α) : Prop where
  hit : ∀ start place, (linearSearch (ε := ProjectionError) objects value start s).1 = .ok (some place) ↔
    start ≤ place ∧ equalAt objects value s place = .ok true ∧
      ∀ other, start ≤ other → other < place → equalAt objects value s other = .ok false
  missed : ∀ start, (linearSearch (ε := ProjectionError) objects value start s).1 = .ok none ↔
    ∀ other, start ≤ other → other < s.buffer.size → equalAt objects value s other = .ok false
  hits : ∀ places, (lookupAll (ε := ProjectionError) objects value s).1 = .ok places →
    places.Pairwise (· < ·) ∧ ∀ place, place ∈ places ↔ equalAt objects value s place = .ok true
  -- Where every place has a value, a search and a lookup have an answer.
  answers : (∀ place < s.buffer.size, ∃ found,
      (valueAt (ε := ProjectionError) objects place s).1 = .ok found) →
    (∀ start, ∃ found, (linearSearch (ε := ProjectionError) objects value start s).1 = .ok found) ∧
      ∃ places, (lookupAll (ε := ProjectionError) objects value s).1 = .ok places
  -- The rounds end by themselves: to allow for more of them changes nothing.
  ends : ∀ rounds, s.buffer.size < rounds →
    lookupRounds (ε := ProjectionError) objects value rounds 0 s = lookupAll objects value s
  loop : lookupAll (ε := ProjectionError) objects value s =
    hitsFrom (readSlot objects) value s.buffer.size (s.buffer.size + 1) 0 s
  -- The same loop, with each read written down, has read every place once.
  once : ∀ places reached, lookupAll (ε := ProjectionError) objects value s = (.ok places, reached) →
    hitsFrom (ε := ProjectionError) (logged objects) value s.buffer.size (s.buffer.size + 1) 0 (s, []) =
      (.ok places, reached, List.range s.buffer.size)

end Session

open Float.Model (UnpackedFloat)

theorem unpacked_nan {a b : UnpackedFloat} (either : a.isNaN = true ∨ b.isNaN = true) :
    a.beq b = false := by
  rcases either with nan | nan
  · cases a with
    | notANumber => rfl
    | infinity | zero | finite => cases nan
  · cases b with
    | notANumber => rcases a with (_ | _) | _ | _ | (_ | _) <;> rfl
    | infinity | zero | finite => cases nan

theorem unpacked_zero (a : UnpackedFloat) (s t : UnpackedFloat.Sign) :
    a.beq (.zero s) = a.beq (.zero t) := by
  rcases a with (_ | _) | _ | _ | (_ | _) <;> rfl

theorem zero_unpacked (a : UnpackedFloat) (s t : UnpackedFloat.Sign) :
    UnpackedFloat.beq (.zero s) a = UnpackedFloat.beq (.zero t) a := by
  rcases a with (_ | _) | _ | _ | (_ | _) <;> rfl

-- The equality of a floating type. No value equals a NaN, a NaN itself included. The two zeros are not
-- one value, but they equal each other, and on either side they equal the same values.
structure FloatingEquality [Scalar α] (isNaN : α → Bool) (zero negative : α) : Prop where
  nan : ∀ found value, isNaN found = true ∨ isNaN value = true → (found == value) = false
  apart : zero ≠ negative
  zeros : (zero == negative) = true
  found : ∀ value, (zero == value) = (negative == value)
  sought : ∀ found, (found == zero) = (found == negative)

theorem double_equality : FloatingEquality Float.isNaN 0 (-0) := by
  have apart : Float.toBits 0 ≠ Float.toBits (-0) := by decide
  refine ⟨fun found value either => ?_, fun same => apart (congrArg Float.toBits same), by decide,
    fun value => ?_, fun found => ?_⟩
  · show found.toModel.unpack.beq value.toModel.unpack = false
    exact unpacked_nan either
  · exact zero_unpacked value.toModel.unpack _ _
  · exact unpacked_zero found.toModel.unpack _ _

theorem single_equality : FloatingEquality Float32.isNaN 0 (-0) := by
  have apart : Float32.toBits 0 ≠ Float32.toBits (-0) := by decide
  refine ⟨fun found value either => ?_, fun same => apart (congrArg Float32.toBits same), by decide,
    fun value => ?_, fun found => ?_⟩
  · show found.toModel.unpack.beq value.toModel.unpack = false
    exact unpacked_nan either
  · exact zero_unpacked value.toModel.unpack _ _
  · exact unpacked_zero found.toModel.unpack _ _

-- Over any projection, in any state and whatever it holds: a search finds the least place from its
-- start on that is equal, and a lookup finds all of them in ascending order, with one read of each
-- place. For the floating types, equality is what it is there.
theorem searches_exact [Scalar α] (objects : List ο) (value : α) (s : Session ο α) :
    Session.Searches objects value s ∧
    FloatingEquality Float.isNaN 0 (-0) ∧ FloatingEquality Float32.isNaN 0 (-0) := by
  refine ⟨?_, double_equality, single_equality⟩
  refine ⟨fun start place => Session.linearSearch_hit .., ?_, fun places => Session.lookupAll_hits, ?_,
    fun rounds => Session.lookupRounds_ends objects value, Session.lookupRounds_exact ..,
    fun places reached => Session.hitsFrom_logged⟩
  · intro start
    rw [Session.linearSearch_answer, Outcome.findM_missed]
    simp only [Session.ahead_member, and_imp]
  · intro each
    have compared : ∀ place < s.buffer.size, ∃ same, Session.equalAt objects value s place = .ok same := by
      intro place inside
      obtain ⟨found, answered⟩ := each place inside
      exact ⟨found == value, by rw [Session.equalAt, answered]; rfl⟩
    constructor
    · intro start
      rw [Session.linearSearch_answer]
      exact Outcome.findM_answers fun place member => compared place (Session.ahead_member.mp member).2
    · exact ⟨_, (Session.lookupAll_answer ..).mpr ⟨compared, rfl⟩⟩

end InSitu
