namespace InSitu

-- A position that shows no value aborts its reader.
structure Readable (α : Type) where
  size : Nat
  components : Nat
  valueAt : Nat → Option α

namespace Readable

def isEmpty (r : Readable α) : Bool := r.size = 0

def tupleCount? (r : Readable α) : Option Nat :=
  if r.components = 0 then none else some (r.size / r.components)

def tupleAt? (r : Readable α) (tuple : Nat) : Option (List α) :=
  (List.range r.components).mapM fun c => r.valueAt (tuple * r.components + c)

end Readable
end InSitu
