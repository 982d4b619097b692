namespace InSitu

abbrev Word := BitVec 64

structure AttributeSet where
  words : List Word
  deriving Repr

namespace AttributeSet

def empty : AttributeSet := ⟨[]⟩

def first (count : Nat) : AttributeSet :=
  let full := List.replicate (count / 64) (BitVec.allOnes 64)
  if count % 64 = 0 then ⟨full⟩ else ⟨full ++ [((1 : Word) <<< (count % 64)) - 1]⟩

def mask (id : Nat) : Word := (1 : Word) <<< (id % 64)

def insertAt (mask : Word) : Nat → List Word → List Word
  | 0, [] => [mask]
  | 0, word :: rest => (word ||| mask) :: rest
  | n + 1, [] => 0 :: insertAt mask n []
  | n + 1, word :: rest => word :: insertAt mask n rest

def insert (set : AttributeSet) (id : Nat) : AttributeSet :=
  ⟨insertAt (mask id) (id / 64) set.words⟩

def contains (set : AttributeSet) (id : Nat) : Bool :=
  match set.words[id / 64]? with
  | some word => word &&& mask id != 0
  | none => false

def ofList (ids : List Nat) : AttributeSet := ids.foldl insert empty

-- Words of `other` beyond its end count as zero.
def clearWords : List Word → List Word → List Word
  | [], _ => []
  | words, [] => words
  | word :: rest, gone :: others => (word &&& ~~~gone) :: clearWords rest others

def dropZeros (words : List Word) : List Word :=
  (words.reverse.dropWhile (· == 0)).reverse

def difference (set other : AttributeSet) : AttributeSet :=
  ⟨dropZeros (clearWords set.words other.words)⟩

def isEmpty (set : AttributeSet) : Bool := set.words.all (· == 0)

def same (set other : AttributeSet) : Bool :=
  (set.difference other).isEmpty && (other.difference set).isEmpty

instance : BEq AttributeSet := ⟨same⟩

def setBits (word : Word) : List Nat := (List.range 64).filter word.getLsbD

def size (set : AttributeSet) : Nat :=
  (set.words.map fun word => (setBits word).length).foldr (· + ·) 0

def numbersFrom (base : Nat) : List Word → List Nat
  | [] => []
  | word :: rest => (setBits word).map (64 * base + ·) ++ numbersFrom (base + 1) rest

def toList (set : AttributeSet) : List Nat := numbersFrom 0 set.words

-- A reading position: the bits of the current word that are still to come, and the words behind it.
structure Cursor where
  base : Nat
  pending : Word
  later : List Word

def cursor (set : AttributeSet) : Cursor :=
  match set.words with
  | [] => ⟨0, 0, []⟩
  | word :: later => ⟨0, word, later⟩

def nextFrom (base : Nat) (pending : Word) (later : List Word) : Option Nat × Cursor :=
  match (setBits pending).head? with
  | some bit => (some (64 * base + bit), ⟨base, pending &&& (pending - 1), later⟩)
  | none =>
    match later with
    | [] => (none, ⟨base, pending, []⟩)
    | word :: rest => nextFrom (base + 1) word rest

def Cursor.next (c : Cursor) : Option Nat × Cursor := nextFrom c.base c.pending c.later

end AttributeSet
end InSitu
