import InSitu.ExportError
import InSitu.PieceIndex
import InSitu.SimulationInfo
namespace InSitu

abbrev FileAct := Act Files ExportError

def onFile (path : Path) (operation : Files → Except IoKind Files) : FileAct Unit := fun files =>
  match operation files with
  | .ok reached => (.ok (), reached)
  | .error kind => (.error (.error (.io path kind)), files)

def makeDirectory (path : Path) : FileAct Unit := fun files =>
  match files.makeDirectory path with
  | (.ok (), reached) => (.ok (), reached)
  | (.error kind, reached) => (.error (.error (.io path kind)), reached)

def readFile (path : Path) : FileAct String := fun files =>
  match files.readText path with
  | .ok content => (.ok content, files)
  | .error kind => (.error (.error (.io path kind)), files)

namespace Piece

-- The file is created first and then filled.
def write (directory : Path) (p : Piece) : FileAct Path := do
  let path := directory.join (fileName p.grid p.step p.worker)
  onFile path (·.create path)
  onFile path (·.fill path (.text p.text))
  return path

end Piece

namespace PieceIndex

def patch (path : Path) (grid : String) (step pieces : Nat) : FileAct Unit := do
  let index ← readFile path
  match expand? index grid step pieces with
  | none => Act.refuse (.placeholderMissing path (entry grid step 0))
  | some patched => onFile path (·.write path (.text patched))

def write (directory : Path) (grid : String) (step : Nat) (time : Float) (pieces : Nat) :
    FileAct Path := do
  let path := directory.join (fileName grid step)
  onFile path (·.write path (.text (template grid step time)))
  patch path grid step pieces
  return path

end PieceIndex

namespace SimulationInfo

def write (directory : Path) (info : SimulationInfo) : FileAct Path := do
  let path := directory.join fileName
  match info.sidecarText? with
  | none => Act.refuse (.json path)
  | some content =>
    onFile path (·.write path (.text content))
    return path

def read (path : Path) : FileAct SimulationInfo := do
  match read? (← readFile path) with
  | none => Act.refuse (.json path)
  | some info => return info

end SimulationInfo
end InSitu
