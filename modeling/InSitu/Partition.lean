import InSitu.Outcome
import InSitu.Projection.Error
namespace InSitu

structure Range where
  start : Nat
  stop : Nat
  deriving DecidableEq, Repr

structure Partition where
  size : Nat
  workers : Nat
  chunk : Nat
  deriving DecidableEq, Repr

namespace Partition

def new? (size workers : Nat) : Except ProjectionError Partition :=
  if workers = 0 then .error .noWorkers
  else .ok ⟨size, workers, (size + workers - 1) / workers⟩

def isEmpty (p : Partition) : Bool := p.size = 0

def share (p : Partition) (worker : Nat) : Range :=
  let start := min (worker * p.chunk) p.size
  ⟨start, min (start + p.chunk) p.size⟩

def rangeFor (p : Partition) (worker : Nat) : Outcome ε Range :=
  if worker < p.workers then .ok (p.share worker)
  else .error (.abort (some
    s!"worker {worker} out of range for a plan of {p.workers} workers"))

-- Every worker's range, in their order, beside the number of the worker, which has 32 bits.
def ranges (p : Partition) : List (Nat × Range) :=
  (List.range p.workers).map fun worker => (worker % Nat.pow 2 32, p.share worker)

def workerOf? (p : Partition) (index : Nat) : Option Nat :=
  if index < p.size then some (index / p.chunk) else none

end Partition
end InSitu
