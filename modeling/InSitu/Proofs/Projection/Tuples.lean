import InSitu.Proofs.Projection.Transfer
namespace InSitu
namespace Session

section Layout
variable {b : Buffer ο α} {tuples : List Nat}

end Layout

theorem gatherTuples_small (small : out.length < tuples.length * s.buffer.components) :
    gatherTuples (ε := ε) (ο := ο) (α := α) objects tuples out s =
      (.ok (.error (.outputTooSmall (tuples.length * s.buffer.components) out.length), out), s) := by
  simp only [gatherTuples, Act.bind_exact, Act.get_exact, Act.ite_exact, if_pos small]
  rfl

theorem gatherTuples_exact {s : Session ο α} (room : tuples.length * s.buffer.components ≤ out.length) :
    gatherTuples (ε := ε) objects tuples out s =
      ((readSlots objects (frontSlots s.buffer tuples) s).1.map fun values =>
          (rangeVerdict s.buffer.tupleCount tuples, overwrite values out),
        (readSlots (ε := ε) objects (frontSlots s.buffer tuples) s).2) := by
  simp only [gatherTuples, Act.bind_exact, Act.get_exact, Act.ite_exact, if_neg (Nat.not_lt.mpr room),
    gatherIn_exact]
  rcases readSlots (ε := ε) objects (frontSlots s.buffer tuples) s with ⟨failure | values, reached⟩ <;> rfl

def shown (objects : List ο) (s : Session ο α) (slot : Nat) : Outcome ProjectionError α :=
  (valueAt objects slot s).1

-- A gather of three tuples that are not in order, one of them twice. The last is out of range.
example : (gatherTuples (ε := ProjectionError) [[1, 2], [3, 4]] [1, 0, 1, 7] [9, 9, 9, 9, 9, 9, 9, 9, 9]
    ⟨{Buffer.initial "rows" .zeroCopy Accessor.rows Nat.zero_lt_two with stop := 2}, 0⟩).1 =
      .ok (.error (.tupleOutOfRange 7 2), [3, 4, 1, 2, 3, 4, 9, 9, 9]) := rfl

def rangeGuard (b : Buffer ο α) (first last outComponents available : Nat) :
    Option (Except ProjectionError Nat) :=
  if outComponents ≠ b.components then some (.error (.componentMismatch b.components outComponents))
  else if last < first then some (.ok 0)
  else if b.tupleCount ≤ last then some (.error (.tupleOutOfRange last b.tupleCount))
  else if available < (last - first + 1) * b.components then
    some (.error (.outputTooSmall ((last - first + 1) * b.components) available))
  else none

section Copy
variable {objects : List ο} {out : List α} {s : Session ο α}

theorem copyTupleRange_exact (first last outComponents : Nat) :
    copyTupleRange (ε := ε) objects first last out outComponents s =
      match rangeGuard s.buffer first last outComponents out.length with
      | some verdict => (.ok (verdict, out), s)
      | none =>
        ((readSlots objects (slotsOf s.buffer first (last - first + 1)) s).1.map fun values =>
            (.ok (last - first + 1), overwrite values out),
          (readSlots (ε := ε) objects (slotsOf s.buffer first (last - first + 1)) s).2) := by
  simp only [copyTupleRange, Act.bind_exact, Act.get_exact, Act.ite_exact, rangeGuard]
  split_ifs
  · rfl
  · rfl
  · rfl
  · rfl
  · rcases readSlots (ε := ε) objects (slotsOf s.buffer first (last - first + 1)) s with
      ⟨failure | values, reached⟩ <;> rfl

end Copy

end Session
end InSitu
