import InSitu.Piece
import InSitu.Decimal.Layout
namespace InSitu.PieceIndex

def fileName (grid : String) (step : Nat) : String := s!"{grid}-{step}.pindex"

def entry (grid : String) (step worker : Nat) : String :=
  s!"<Piece Source=\"{Piece.fileName grid step worker}\"/>"

def opening (grid : String) (step : Nat) (time : Float) : String :=
  s!"<?xml version=\"1.0\"?>\n<PieceIndex grid=\"{grid}\" step=\"{step}\" time=\"{Decimal.text time}\">\n"

def closing : String := "</PieceIndex>\n"

def template (grid : String) (step : Nat) (time : Float) : String :=
  opening grid step time ++ entry grid step 0 ++ "\n" ++ closing

def splitAtFirst (pattern : List Char) : List Char → Option (List Char × List Char)
  | [] => if pattern = [] then some ([], []) else none
  | c :: rest =>
    if pattern.isPrefixOf (c :: rest) then some ([], (c :: rest).drop pattern.length)
    else (splitAtFirst pattern rest).map fun (before, after) => (c :: before, after)

-- The line break behind the replaced entry is the one behind the last new entry.
def dropLineBreak : List Char → List Char
  | '\n' :: rest => rest
  | rest => rest

def entries (grid : String) (step pieces : Nat) : List Char :=
  (List.range pieces).flatMap fun worker => (entry grid step worker).toList ++ ['\n']

def expand? (index : String) (grid : String) (step pieces : Nat) : Option String :=
  (splitAtFirst (entry grid step 0).toList index.toList).map fun (before, after) =>
    .ofList (before ++ entries grid step pieces ++ dropLineBreak after)

end InSitu.PieceIndex
