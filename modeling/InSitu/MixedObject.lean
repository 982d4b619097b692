import InSitu.Projection.Buffer
namespace InSitu

structure MixedObject where
  values : (t : ScalarType) → List t.Carrier

def MixedObject.of (f32 : List Float32) (f64 : List Float) (i32 : List Int32) (i64 : List Int64)
    (u32 : List UInt32) (u64 : List UInt64) : MixedObject where
  values
    | .f32 => f32
    | .f64 => f64
    | .i32 => i32
    | .i64 => i64
    | .u32 => u32
    | .u64 => u64

def MixedObject.accessor (t : ScalarType) (offset components : Nat) :
    Accessor MixedObject t.Carrier :=
  ⟨components, fun object => (object.values t).drop offset⟩

end InSitu
