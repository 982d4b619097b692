import InSitu.Partition
import Mathlib.Algebra.Order.Floor.Div
namespace InSitu

def Range.length (r : Range) : Nat := r.stop - r.start

def Range.Holds (r : Range) (index : Nat) : Prop := r.start ≤ index ∧ index < r.stop

namespace Partition

def part (p : Partition) (objects : List ο) (worker : Nat) : List ο :=
  objects.extract (p.share worker).start (p.share worker).stop

theorem share_ordered (p : Partition) (worker : Nat) :
    (p.share worker).start ≤ (p.share worker).stop ∧ (p.share worker).stop ≤ p.size := by
  simp only [share]
  omega

theorem planned_exact {size staff : Nat} (planned : new? size staff = .ok p) :
    p.size = size ∧ p.workers = staff := by
  unfold new? at planned
  split at planned
  · cases planned
  · cases planned
    exact ⟨rfl, rfl⟩

theorem planned_within {size staff : Nat} (planned : new? size staff = .ok p) (worker : Nat) :
    (p.share worker).start ≤ (p.share worker).stop ∧ (p.share worker).stop ≤ size :=
  (planned_exact planned).1 ▸ p.share_ordered worker

theorem planned_shares {size staff : Nat} (planned : new? size staff = .ok p) :
    p.ranges.map (·.2) = (List.range staff).map p.share := by
  simp [ranges, (planned_exact planned).2]

theorem share_alone {size : Nat} (planned : new? size 1 = .ok p) : p.share 0 = ⟨0, size⟩ := by
  cases planned
  simp [share]

theorem first_parts (p : Partition) {objects : List ο} (sized : p.size = objects.length)
    (count : Nat) :
    (List.range count).flatMap (p.part objects) = objects.take (min (count * p.chunk) p.size) := by
  induction count with
  | zero => simp
  | succ count ih =>
    have reach : min (count * p.chunk) p.size + ((p.share count).stop - (p.share count).start) =
        min ((count + 1) * p.chunk) p.size := by
      simp only [share, Nat.succ_mul]
      omega
    rw [List.range_succ, List.flatMap_append, ih, ← reach, List.take_add]
    simp [part, share]

theorem parts_whole {workers : Nat} {objects : List ο}
    (planned : new? objects.length workers = .ok p) :
    (List.range workers).flatMap (p.part objects) = objects := by
  unfold new? at planned
  split at planned
  · cases planned
  · rename_i some
    cases planned
    rw [first_parts _ rfl]
    have split := Nat.div_add_mod (objects.length + workers - 1) workers
    have rest := Nat.mod_lt (objects.length + workers - 1) (Nat.pos_of_ne_zero some)
    have reach : objects.length ≤ workers * ((objects.length + workers - 1) / workers) := by omega
    rw [Nat.min_eq_right reach, List.take_length]

theorem planned_chunk {size staff : Nat} (planned : new? size staff = .ok p) :
    p.chunk = size ⌈/⌉ staff := by
  unfold new? at planned
  split at planned
  · cases planned
  · cases planned
    exact (Nat.ceilDiv_eq_add_pred_div size staff).symm

theorem planned_reach {size staff : Nat} (planned : new? size staff = .ok p) :
    size ≤ staff * p.chunk := by
  have manned : 0 < staff := by
    refine Nat.pos_of_ne_zero fun none => ?_
    simp [new?, none] at planned
  rw [planned_chunk planned]
  exact le_smul_ceilDiv manned

theorem planned_chunk_pos {size staff : Nat} (planned : new? size staff = .ok p) (filled : 0 < size) :
    0 < p.chunk := by
  refine Nat.pos_of_ne_zero fun none => ?_
  have reach := planned_reach planned
  rw [none] at reach
  omega

theorem share_start (p : Partition) (worker : Nat) :
    (p.share worker).start = min (worker * p.chunk) p.size := rfl

-- The clamps come to this: a share ends where the next one starts.
theorem share_stop (p : Partition) (worker : Nat) :
    (p.share worker).stop = min ((worker + 1) * p.chunk) p.size := by
  simp only [share, Nat.succ_mul]
  omega

theorem share_holds (p : Partition) {worker index : Nat} (positive : 0 < p.chunk) :
    (p.share worker).Holds index ↔ index < p.size ∧ index / p.chunk = worker := by
  rw [Range.Holds, share_stop, share_start, Nat.div_eq_iff positive, Nat.succ_mul]
  omega

structure Divides (p : Partition) (size staff : Nat) : Prop where
  one_each : p.ranges.length = staff
  in_order : ∀ worker < staff, p.ranges[worker]? = some (worker % Nat.pow 2 32, p.share worker) ∧
    ∀ ε, p.rangeFor (ε := ε) worker = .ok (p.share worker)
  ordered : ∀ worker < staff,
    (p.share worker).start ≤ (p.share worker).stop ∧ (p.share worker).stop ≤ size
  first_start : (p.share 0).start = 0
  adjoining : ∀ worker, worker + 1 < staff → (p.share (worker + 1)).start = (p.share worker).stop
  last_stop : (p.share (staff - 1)).stop = size
  at_most : ∀ worker < staff, (p.share worker).length ≤ size ⌈/⌉ staff
  -- Objects are dealt out up to one worker, the last whose range is not empty.
  dealt : (∀ worker < staff, (p.share worker).length = 0) ∧ size = 0 ∨
    ∃ last < staff, 0 < (p.share last).length ∧
      (∀ worker < last, (p.share worker).length = size ⌈/⌉ staff) ∧
      ∀ worker < staff, last < worker → (p.share worker).length = 0
  unowned : ∀ index, p.workerOf? index = none ↔ size ≤ index
  owned : ∀ index < size, ∃ owner < staff, p.workerOf? index = some owner ∧
    ∀ worker < staff, (p.share worker).Holds index ↔ worker = owner

theorem planned_dealt {size staff : Nat} (planned : new? size staff = .ok p) (filled : 0 < size) :
    ∃ last < staff, 0 < (p.share last).length ∧
      (∀ worker < last, (p.share worker).length = p.chunk) ∧
      ∀ worker, last < worker → (p.share worker).length = 0 := by
  have reach := planned_reach planned
  have positive := planned_chunk_pos planned filled
  have sized := (planned_exact planned).1
  -- The owner of the last object is the last worker that has any.
  have below : ∀ worker, worker ≤ (size - 1) / p.chunk ↔ worker * p.chunk < size := by
    intro worker
    rw [Nat.le_div_iff_mul_le positive]
    omega
  have lengths : ∀ worker, (p.share worker).length =
      min ((worker + 1) * p.chunk) size - min (worker * p.chunk) size := by
    intro worker
    rw [Range.length, share_stop, share_start, sized]
  refine ⟨(size - 1) / p.chunk, ?_, ?_, ?_, ?_⟩
  · rw [Nat.div_lt_iff_lt_mul positive]
    omega
  · have there := (below _).mp (Nat.le_refl _)
    rw [lengths, Nat.succ_mul]
    omega
  · intro worker before
    have next := (below (worker + 1)).mp before
    rw [lengths, Nat.min_eq_left (Nat.le_of_lt next)]
    rw [Nat.succ_mul] at next ⊢
    omega
  · intro worker behind
    have beyond := (below worker).not.mp (Nat.not_le.mpr behind)
    rw [lengths, Nat.succ_mul]
    omega

theorem shares_divide (size staff : Nat) (manned : 0 < staff) :
    ∃ p, new? size staff = .ok p ∧ p.Divides size staff := by
  obtain ⟨p, planned⟩ : ∃ p, new? size staff = .ok p := ⟨_, if_neg (Nat.ne_of_gt manned)⟩
  obtain ⟨sized, staffed⟩ := planned_exact planned
  have reach := planned_reach planned
  have starts : ∀ worker, (p.share worker).start = min (worker * p.chunk) size := by
    intro worker
    rw [share_start, sized]
  have stops : ∀ worker, (p.share worker).stop = min ((worker + 1) * p.chunk) size := by
    intro worker
    rw [share_stop, sized]
  refine ⟨p, planned, ?_⟩
  constructor
  case one_each => simp [ranges, staffed]
  case in_order =>
    intro worker inside
    simp [ranges, rangeFor, staffed, inside]
  case ordered =>
    intro worker inside
    exact sized ▸ p.share_ordered worker
  case first_start => simp [starts]
  case adjoining =>
    intro worker inside
    rw [starts, stops]
  case last_stop =>
    rw [stops, Nat.sub_add_cancel manned, Nat.min_eq_right reach]
  case at_most =>
    intro worker inside
    rw [← planned_chunk planned, Range.length, starts, stops, Nat.succ_mul]
    omega
  case dealt =>
    rcases Nat.eq_zero_or_pos size with rfl | objects
    · refine .inl ⟨fun worker _ => ?_, rfl⟩
      simp [Range.length, starts, stops]
    · obtain ⟨last, inside, nonempty, full, nothing⟩ := planned_dealt planned objects
      exact .inr ⟨last, inside, nonempty, planned_chunk planned ▸ full, fun worker _ => nothing worker⟩
  case unowned =>
    intro index
    simp [workerOf?, sized]
  case owned =>
    intro index inside
    have positive := planned_chunk_pos planned (Nat.zero_lt_of_lt inside)
    refine ⟨index / p.chunk, ?_, by simp [workerOf?, sized, inside], ?_⟩
    · rw [Nat.div_lt_iff_lt_mul positive]
      omega
    · intro worker _
      rw [p.share_holds positive, sized]
      exact ⟨fun holds => holds.2.symm, fun same => ⟨inside, same.symm⟩⟩

-- Seven objects for five workers: two each, one for the fourth, and none for the fifth.
theorem shares_divide_uneven : 0 < 5 ∧ ∃ p, new? 7 5 = .ok p ∧ p.Divides 7 5 ∧
    p.ranges.map (·.2) = [⟨0, 2⟩, ⟨2, 4⟩, ⟨4, 6⟩, ⟨6, 7⟩, ⟨7, 7⟩] ∧ p.workerOf? 6 = some 3 := by
  obtain ⟨p, planned, divides⟩ := shares_divide 7 5 (by decide)
  refine ⟨by decide, p, planned, divides, ?_⟩
  cases planned
  decide

end Partition
end InSitu
