namespace InSitu

class Scalar (α : Type) extends BEq α where
  zero : α
  widen : α → Float

inductive ScalarType where
  | f32 | f64 | i32 | i64 | u32 | u64
  deriving DecidableEq, Repr

namespace ScalarType

def name : ScalarType → String
  | .f32 => "f32"
  | .f64 => "f64"
  | .i32 => "i32"
  | .i64 => "i64"
  | .u32 => "u32"
  | .u64 => "u64"

def all : List ScalarType := [.f32, .f64, .i32, .i64, .u32, .u64]

def ofName? (name : String) : Option ScalarType := all.find? (·.name = name)

def Carrier : ScalarType → Type
  | .f32 => Float32
  | .f64 => Float
  | .i32 => Int32
  | .i64 => Int64
  | .u32 => UInt32
  | .u64 => UInt64

end ScalarType

instance : Scalar Float32 := { zero := 0, widen := Float32.toFloat }
instance : Scalar Float := { zero := 0, widen := id }
instance : Scalar Int32 := { zero := 0, widen := Int32.toFloat }
instance : Scalar Int64 := { zero := 0, widen := Int64.toFloat }
instance : Scalar UInt32 := { zero := 0, widen := UInt32.toFloat }
instance : Scalar UInt64 := { zero := 0, widen := UInt64.toFloat }

instance : (t : ScalarType) → Scalar t.Carrier
  | .f32 => inferInstanceAs (Scalar Float32)
  | .f64 => inferInstanceAs (Scalar Float)
  | .i32 => inferInstanceAs (Scalar Int32)
  | .i64 => inferInstanceAs (Scalar Int64)
  | .u32 => inferInstanceAs (Scalar UInt32)
  | .u64 => inferInstanceAs (Scalar UInt64)

end InSitu
