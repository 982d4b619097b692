import InSitu.Files.Path
namespace InSitu

inductive IoKind where
  | notFound | alreadyExists | notADirectory | isADirectory | invalidData
  deriving DecidableEq, Repr

def IoKind.name : IoKind → String
  | .notFound => "NotFound"
  | .alreadyExists => "AlreadyExists"
  | .notADirectory => "NotADirectory"
  | .isADirectory => "IsADirectory"
  | .invalidData => "InvalidData"

inductive Content where
  | text (content : String)
  | raw (bytes : List UInt8)
  deriving DecidableEq, Repr

def Content.ofBytes (bytes : ByteArray) : Content :=
  match String.fromUTF8? bytes with
  | some content => .text content
  | none => .raw bytes.toList

inductive Node where
  | directory
  | file (content : Content)
  deriving DecidableEq, Repr

-- Names from the working directory down. It is itself the empty location, and always there.
abbrev Location := List PathName

structure Files where
  nodes : List (Location × Node)

namespace Files

def initial : Files := ⟨[]⟩

def node? (files : Files) (l : Location) : Option Node :=
  if l = [] then some .directory else (files.nodes.find? (·.1 = l)).map (·.2)

def put (files : Files) (l : Location) (node : Node) : Files :=
  if files.nodes.any (·.1 = l) then
    ⟨files.nodes.map fun entry => if entry.1 = l then (l, node) else entry⟩
  else ⟨files.nodes ++ [(l, node)]⟩

def follow (files : Files) : Location → List PathName → Except IoKind Location
  | l, [] => .ok l
  | l, name :: rest =>
    if name = Path.here then follow files l rest
    else if name = Path.up then follow files l.dropLast rest
    else match files.node? (l ++ [name]) with
      | none => .error .notFound
      | some (.file _) => .error .notADirectory
      | some .directory => follow files (l ++ [name]) rest

def locate (files : Files) (p : Path) : Except IoKind (Location × Bool) :=
  match p.names.getLast? with
  | none => if p.isEmpty then .error .notFound else .ok ([], true)
  | some last =>
    if last = Path.here ∨ last = Path.up then (files.follow [] p.names).map (·, true)
    else (files.follow [] p.names.dropLast).map fun l => (l ++ [last], p.namesDirectory)

-- An empty file, new or in place of the one that was there. A path that can only be a directory is
-- refused as one, whatever is there.
def create (files : Files) (p : Path) : Except IoKind Files := do
  let (l, directory) ← files.locate p
  if directory ∨ files.node? l = some .directory then .error .isADirectory
  else return files.put l (.file (.text ""))

def fill (files : Files) (p : Path) (content : Content) : Except IoKind Files := do
  let (l, _) ← files.locate p
  match files.node? l with
  | some (.file _) => return files.put l (.file content)
  | some .directory => .error .isADirectory
  | none => .error .notFound

def write (files : Files) (p : Path) (content : Content) : Except IoKind Files := do
  (← files.create p).fill p content

def readText (files : Files) (p : Path) : Except IoKind String := do
  let (l, directory) ← files.locate p
  match files.node? l with
  | none => .error .notFound
  | some .directory => .error .isADirectory
  | some (.file content) =>
    if directory then .error .notADirectory
    else match content with
      | .text content => return content
      | .raw _ => .error .invalidData

def makeLast (files : Files) (names : List PathName) : Except IoKind Files :=
  match names.getLast? with
  | none => .ok files
  | some last =>
    if last = Path.here ∨ last = Path.up then (files.follow [] names).map fun _ => files
    else do
      let l ← files.follow [] names.dropLast
      match files.node? (l ++ [last]) with
      | none => return files.put (l ++ [last]) .directory
      | some .directory => return files
      | some (.file _) => .error .alreadyExists

def attempt (files : Files) (names : List PathName) : Except IoKind Unit × Files :=
  match files.makeLast names with
  | .ok made => (.ok (), made)
  | .error kind => (.error kind, files)

def makeFrom (files : Files) : List PathName → List PathName → Except IoKind Unit × Files
  | [], names => files.attempt names
  | name :: higher, names =>
    match files.attempt names with
    | (.error .notFound, _) =>
      match files.makeFrom higher (higher.reverse ++ [name]) with
      | (.ok (), made) => made.attempt names
      | refused => refused
    | settled => settled

-- A directory with everything above it. It may be there already. What is above it is read off the
-- path without the names for here, so that a new directory cannot be named with one at the end.
def makeDirectory (files : Files) (p : Path) : Except IoKind Unit × Files :=
  files.makeFrom (p.names.filter (· ≠ Path.here)).reverse.tail p.names

def remove (files : Files) (p : Path) : Except IoKind Files := do
  let (l, _) ← files.locate p
  match files.node? l with
  | none => .error .notFound
  | some (.file _) => .error .notADirectory
  | some .directory => return ⟨files.nodes.filter fun entry => ! l.isPrefixOf entry.1⟩

end Files
end InSitu
