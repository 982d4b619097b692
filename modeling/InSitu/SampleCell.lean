import InSitu.Projection.Buffer
namespace InSitu

structure SampleCell where
  id : UInt64
  position : List Float
  diameter : Float
  cellType : UInt32

namespace SampleCell

def new (number : Nat) (position : List Float) (diameter : Float) : SampleCell :=
  ⟨number.toUInt64, position, diameter, 0⟩

def withDiameters (diameters : List Float) : List SampleCell :=
  diameters.zipIdx.map fun (diameter, number) => new number [0, 0, 0] diameter

def gridLine (count : Nat) : List SampleCell :=
  (List.range count).map fun number => new number [.ofNat number, 0, 0] 1

def withType (cellType : UInt32) (c : SampleCell) : SampleCell := {c with cellType}

def idAccessor : Accessor SampleCell UInt64 := ⟨1, ([·.id])⟩
def positionAccessor : Accessor SampleCell Float := ⟨3, (·.position)⟩
def diameterAccessor : Accessor SampleCell Float := ⟨1, ([·.diameter])⟩
def cellTypeAccessor : Accessor SampleCell UInt32 := ⟨1, ([·.cellType])⟩

end SampleCell
end InSitu
