import InSitu.Adaptor
import InSitu.Binding.Cell
namespace InSitu.Binding

def gridName : String := "cells"

def grid (g : Grid BindingCell) : Except ExportError (Grid BindingCell) := do
  let (_, g) ← g.addAttribute ⟨"position", .vector 3, some "um"⟩ .f64 BindingCell.positionAccessor
  let (_, g) ← g.addAttribute ⟨"diameter", .scalar, some "um"⟩ .f64 BindingCell.diameterAccessor
  let (_, g) ← g.addAttribute ⟨"cell_type", .categorical 2, none⟩ .u32 BindingCell.cellTypeAccessor
  let (_, g) ← g.addAttribute ⟨"inhibited", .categorical 2, none⟩ .u32 BindingCell.inhibitedAccessor
  return g

def adaptor (config : Config) (available : Nat) :
    Act (Host ω) ExportError (Adaptor BindingCell) := do
  let empty ← Adaptor.new config available
  let registered := do
    let a ← empty.addGrid gridName
    match a.grid? gridName with
    | none => return a
    | some g => return a.setGrid (← grid g)
  match registered with
  | .ok a => return a
  | .error cause => Act.refuse cause

end InSitu.Binding
