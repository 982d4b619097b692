import InSitu.Proofs.Partition
namespace InSitu.Partition

structure Bounded (p : Partition) (limit : Nat) : Prop where
  quotient : p.size / p.workers ≤ limit
  remainder : p.size % p.workers ≤ limit
  chunk : p.chunk ≤ limit
  product : ∀ worker < p.workers, worker * p.chunk ≤ limit
  sum : ∀ worker < p.workers, (p.share worker).start + p.chunk ≤ limit
  -- There is a division only for an index in the collection.
  divisor : ∀ index, (p.workerOf? index).isSome → 0 < p.chunk

theorem rounded_up (size : Nat) (manned : 0 < staff) :
    (size + staff - 1) / staff = if 0 < size % staff then size / staff + 1 else size / staff := by
  have whole := Nat.div_add_mod size staff
  have rest := Nat.mod_lt size manned
  rw [Nat.div_eq_iff manned]
  split
  · rw [Nat.succ_mul, Nat.mul_comm (size / staff)]
    omega
  · rw [Nat.mul_comm (size / staff)]
    omega

theorem planned_total {size staff : Nat} (planned : new? size staff = .ok p) :
    staff * p.chunk ≤ size + staff - 1 := by
  rw [planned_chunk planned, Nat.ceilDiv_eq_add_pred_div]
  exact Nat.mul_div_le _ _

theorem product_within (p : Partition) (inside : worker < staff) :
    worker * p.chunk + p.chunk ≤ staff * p.chunk := by
  rw [← Nat.succ_mul]
  exact Nat.mul_le_mul_right _ inside

theorem planned_bounded {size staff : Nat} (planned : new? size staff = .ok p) (manned : 0 < staff) :
    p.Bounded (size + staff - 1) := by
  obtain ⟨sized, staffed⟩ := planned_exact planned
  have total := planned_total planned
  constructor
  case quotient =>
    have below := Nat.div_le_self size staff
    rw [sized, staffed]
    omega
  case remainder =>
    have below := Nat.mod_le size staff
    rw [sized, staffed]
    omega
  case chunk =>
    have one := p.product_within manned
    omega
  case product =>
    intro worker inside
    have within := p.product_within (staffed ▸ inside)
    omega
  case sum =>
    intro worker inside
    have within := p.product_within (staffed ▸ inside)
    have clamped := Nat.min_le_left (worker * p.chunk) p.size
    rw [share_start]
    omega
  case divisor =>
    intro index owned
    apply planned_chunk_pos planned
    apply Nat.pos_of_ne_zero
    intro empty
    simp [workerOf?, sized, empty] at owned

structure Words where
  size : UInt64
  workers : UInt64
  chunk : UInt64

namespace Words

def plan? (size workers : UInt64) : Option Words :=
  if workers = 0 then none
  else some ⟨size, workers, if 0 < size % workers then size / workers + 1 else size / workers⟩

def start (w : Words) (worker : UInt64) : UInt64 := min (worker * w.chunk) w.size

def stop (w : Words) (worker : UInt64) : UInt64 := min (w.start worker + w.chunk) w.size

def owner? (w : Words) (index : UInt64) : Option UInt64 :=
  if index < w.size then some (index / w.chunk) else none

structure Exact (w : Words) (p : Partition) : Prop where
  size : w.size.toNat = p.size
  workers : w.workers.toNat = p.workers
  chunk : w.chunk.toNat = p.chunk
  product : ∀ worker < w.workers, (worker * w.chunk).toNat = worker.toNat * p.chunk
  sum : ∀ worker < w.workers,
    (w.start worker + w.chunk).toNat = (p.share worker.toNat).start + p.chunk
  share : ∀ worker < w.workers,
    (⟨(w.start worker).toNat, (w.stop worker).toNat⟩ : Range) = p.share worker.toNat
  divisor : ∀ index < w.size, w.chunk ≠ 0
  owner : ∀ index, (w.owner? index).map UInt64.toNat = p.workerOf? index.toNat

theorem toNat_mul_fits {a b : UInt64} (fits : a.toNat * b.toNat < 2 ^ 64) :
    (a * b).toNat = a.toNat * b.toNat := by
  rw [UInt64.toNat_mul, Nat.mod_eq_of_lt fits]

theorem toNat_add_fits {a b : UInt64} (fits : a.toNat + b.toNat < 2 ^ 64) :
    (a + b).toNat = a.toNat + b.toNat := by
  rw [UInt64.toNat_add, Nat.mod_eq_of_lt fits]

theorem rounded_fits {size staff : UInt64} (manned : 0 < staff.toNat)
    (fits : (size.toNat + staff.toNat - 1) / staff.toNat < 2 ^ 64) :
    (if 0 < size % staff then size / staff + 1 else size / staff).toNat =
      (size.toNat + staff.toNat - 1) / staff.toNat := by
  rw [rounded_up _ manned] at fits ⊢
  have left : 0 < size % staff ↔ 0 < size.toNat % staff.toNat := by
    rw [UInt64.lt_iff_toNat_lt, UInt64.toNat_mod, UInt64.toNat_zero]
  by_cases excess : 0 < size.toNat % staff.toNat
  · rw [if_pos excess] at fits ⊢
    rw [if_pos (left.mpr excess), toNat_add_fits, UInt64.toNat_div]
    · rfl
    · rwa [UInt64.toNat_div]
  · rw [if_neg excess, if_neg (left.not.mpr excess), UInt64.toNat_div]

theorem plan_exact {size staff : UInt64} (planned : new? size.toNat staff.toNat = .ok p)
    (manned : 0 < staff) (room : size.toNat + staff.toNat - 1 < 2 ^ 64) :
    ∃ w, plan? size staff = some w ∧ w.Exact p := by
  have positive : 0 < staff.toNat := UInt64.lt_iff_toNat_lt.mp manned
  have nonzero : staff ≠ 0 := by
    intro none
    rw [none] at positive
    cases positive
  have bounded := planned_bounded planned positive
  obtain ⟨sized, staffed⟩ := planned_exact planned
  refine ⟨_, if_neg nonzero, ?_⟩
  generalize rounded : (if 0 < size % staff then size / staff + 1 else size / staff) = chunk
  have chunked : chunk.toNat = p.chunk := by
    have quotient := planned_chunk planned
    rw [Nat.ceilDiv_eq_add_pred_div] at quotient
    rw [← rounded, quotient]
    apply rounded_fits positive
    rw [← quotient]
    exact Nat.lt_of_le_of_lt bounded.chunk room
  have member : ∀ {worker}, worker < staff → worker.toNat < p.workers :=
    fun inside => staffed ▸ UInt64.lt_iff_toNat_lt.mp inside
  have product : ∀ worker < staff, (worker * chunk).toNat = worker.toNat * p.chunk := by
    intro worker inside
    rw [← chunked]
    apply toNat_mul_fits
    rw [chunked]
    exact Nat.lt_of_le_of_lt (bounded.product _ (member inside)) room
  have starts : ∀ worker < staff, (min (worker * chunk) size).toNat = (p.share worker.toNat).start := by
    intro worker inside
    rw [UInt64.toNat_min, product worker inside, share_start, sized]
  have sum : ∀ worker < staff, (min (worker * chunk) size + chunk).toNat =
      (p.share worker.toNat).start + p.chunk := by
    intro worker inside
    rw [← starts worker inside, ← chunked]
    apply toNat_add_fits
    rw [starts worker inside, chunked]
    exact Nat.lt_of_le_of_lt (bounded.sum _ (member inside)) room
  constructor
  case size => exact sized.symm
  case workers => exact staffed.symm
  case chunk => exact chunked
  case product => exact product
  case sum => exact sum
  case share =>
    intro worker inside
    have ends : (min (min (worker * chunk) size + chunk) size).toNat = (p.share worker.toNat).stop := by
      rw [UInt64.toNat_min, sum worker inside, ← sized]
      rfl
    exact congrArg₂ Range.mk (starts worker inside) ends
  case divisor =>
    intro index inside zero
    have filled : 0 < size.toNat := Nat.zero_lt_of_lt (UInt64.lt_iff_toNat_lt.mp inside)
    have nonempty := planned_chunk_pos planned filled
    rw [← chunked, show chunk = 0 from zero] at nonempty
    cases nonempty
  case owner =>
    intro index
    have inside : index < size ↔ index.toNat < p.size := sized.symm ▸ UInt64.lt_iff_toNat_lt
    simp only [owner?, workerOf?, ← chunked, ← UInt64.toNat_div, inside]
    split <;> rfl

end Words

-- For every collection and every number of workers that fit: each number on the way to a share is at most
-- the objects and the workers but one, so it fits in a word, and the plan in words is the plan. An owner is
-- never looked for by a division by zero.
theorem arithmetic_fits (size staff : UInt64) (manned : 0 < staff)
    (room : size.toNat + staff.toNat - 1 < 2 ^ 64) :
    ∃ p w, new? size.toNat staff.toNat = .ok p ∧ p.Bounded (size.toNat + staff.toNat - 1) ∧
      Words.plan? size staff = some w ∧ w.Exact p := by
  have positive : 0 < staff.toNat := UInt64.lt_iff_toNat_lt.mp manned
  obtain ⟨p, planned⟩ : ∃ p, new? size.toNat staff.toNat = .ok p := ⟨_, if_neg (Nat.ne_of_gt positive)⟩
  obtain ⟨w, inWords, exact⟩ := Words.plan_exact planned manned room
  exact ⟨p, w, planned, planned_bounded planned positive, inWords, exact⟩

-- The sum for the last worker is beyond the collection and still fits; its share is clamped to it.
theorem arithmetic_fits_clamped : (0 : UInt64) < 8 ∧
    (18446744073709551607 : UInt64).toNat + (8 : UInt64).toNat - 1 < 2 ^ 64 ∧
    ∃ p w, new? 18446744073709551607 8 = .ok p ∧ Words.plan? 18446744073709551607 8 = some w ∧
      p.share 7 = ⟨16140901064495857657, 18446744073709551607⟩ ∧
      (w.start 7 + w.chunk).toNat = 18446744073709551608 ∧
      (⟨(w.start 7).toNat, (w.stop 7).toNat⟩ : Range) = p.share 7 := by
  have room : (18446744073709551607 : UInt64).toNat + (8 : UInt64).toNat - 1 < 2 ^ 64 := by decide
  obtain ⟨p, w, planned, -, inWords, exact⟩ :=
    arithmetic_fits 18446744073709551607 8 (by decide) room
  have seventh : 7 < w.workers := by
    rw [UInt64.lt_iff_toNat_lt, exact.workers, (planned_exact planned).2]
    decide
  refine ⟨by decide, room, p, w, planned, inWords, ?_, ?_, exact.share 7 seventh⟩
  · cases planned
    rfl
  · rw [exact.sum 7 seventh]
    cases planned
    rfl

-- With more workers than fit the product for the last one wraps, and the first objects are dealt out twice.
example : (Words.plan? 18446744073709551615 9223372036854775809).map (fun w =>
    (w.start 0, w.stop 0, w.start 9223372036854775808, w.stop 9223372036854775808)) =
      some (0, 2, 0, 2) := by decide

end InSitu.Partition
