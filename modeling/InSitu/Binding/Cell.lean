import InSitu.Projection.Buffer
import InSitu.Binding.Random
namespace InSitu

structure Position where
  x : Float
  y : Float
  z : Float

def Position.toList (p : Position) : List Float := [p.x, p.y, p.z]

structure BindingCell where
  id : Nat
  position : Position
  diameter : Float
  cellType : UInt32
  inhibited : UInt32

namespace BindingCell

def inhibit (c : BindingCell) : BindingCell := {c with inhibited := 1}

def isInhibited (c : BindingCell) : Bool := c.inhibited ≠ 0

def positionAccessor : Accessor BindingCell Float := ⟨3, (·.position.toList)⟩
def diameterAccessor : Accessor BindingCell Float := ⟨1, ([·.diameter])⟩
def cellTypeAccessor : Accessor BindingCell UInt32 := ⟨1, ([·.cellType])⟩
def inhibitedAccessor : Accessor BindingCell UInt32 := ⟨1, ([·.inhibited])⟩

end BindingCell

def spaceExtent : Float := 100

-- Position first, coordinate by coordinate, then the diameter: 5 to 15, the upper end excluded.
def BindingCell.draw (number : Nat) (s : ChaCha) : BindingCell × ChaCha :=
  let (x, s) := s.next
  let (y, s) := s.next
  let (z, s) := s.next
  let (d, s) := s.next
  ({ id := number
     position := ⟨unitDraw x * spaceExtent, unitDraw y * spaceExtent, unitDraw z * spaceExtent⟩
     diameter := rangeDraw 5 10 d
     cellType := (number % 2).toUInt32
     inhibited := 0 }, s)

def populationFrom (first : Nat) : (count : Nat) → ChaCha → List BindingCell
  | 0, _ => []
  | count + 1, s =>
    let (cell, s) := BindingCell.draw first s
    cell :: populationFrom (first + 1) count s

def population (count : Nat) (seed : UInt64) : List BindingCell :=
  populationFrom 0 count (.ofSeed seed)

def radialConcentration (p : Position) : Float :=
  let c := spaceExtent / 2
  let square (x : Float) := (x - c) * (x - c)
  let distance := (square p.x + square p.y + square p.z).sqrt
  let value := 2 * (1 - distance / c)
  if value > 0 then value else 0

structure InhibitionRule where
  threshold : Float := 1
  probability : Float := 0.05

namespace InhibitionRule

def holds (rule : InhibitionRule) (concentration : Position → Float) (cell : BindingCell)
    (draw : UInt64) : Bool :=
  rule.threshold ≤ concentration cell.position && (unitDraw draw).abs < rule.probability

-- Whether the cell was inhibited by this, the cell afterwards, and what is left to draw.
def apply (rule : InhibitionRule) (concentration : Position → Float) (g : Generator γ)
    (cell : BindingCell) (s : γ) : Bool × BindingCell × γ :=
  let (draw, s) := g.next s
  if rule.holds concentration cell draw then (! cell.isInhibited, cell.inhibit, s)
  else (false, cell, s)

def step (rule : InhibitionRule) (concentration : Position → Float) (g : Generator γ) :
    List BindingCell → γ → Nat × List BindingCell × γ
  | [], s => (0, [], s)
  | cell :: rest, s =>
    let (newly, cell, s) := rule.apply concentration g cell s
    let (count, others, s) := step rule concentration g rest s
    (count + newly.toNat, cell :: others, s)

end InhibitionRule
end InSitu
