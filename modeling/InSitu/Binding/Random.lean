namespace InSitu

structure Generator (γ : Type) where
  next : γ → UInt64 × γ

def Generator.or (g : Generator γ) (h : Generator δ) : Generator (γ ⊕ δ) where
  next
    | .inl s => (g.next s).map id .inl
    | .inr s => (h.next s).map id .inr

-- A given list of draws, over and over. Without any, every draw is zero.
structure Listed where
  all : List UInt64
  rest : List UInt64

namespace Listed

def ofList (draws : List UInt64) : Listed := ⟨draws, draws⟩

def next (s : Listed) : UInt64 × Listed :=
  match s.rest with
  | draw :: rest => (draw, {s with rest})
  | [] => match s.all with
    | draw :: rest => (draw, {s with rest})
    | [] => (0, s)

def generator : Generator Listed := ⟨next⟩

end Listed

namespace ChaCha

abbrev Block := Vector UInt32 16

def rotateLeft (x : UInt32) (n : UInt32) : UInt32 := (x <<< n) ||| (x >>> (32 - n))

def quarterRound (a b c d : Fin 16) (v : Block) : Block :=
  let v := v.set a (v[a] + v[b])
  let v := v.set d (rotateLeft (v[d] ^^^ v[a]) 16)
  let v := v.set c (v[c] + v[d])
  let v := v.set b (rotateLeft (v[b] ^^^ v[c]) 12)
  let v := v.set a (v[a] + v[b])
  let v := v.set d (rotateLeft (v[d] ^^^ v[a]) 8)
  let v := v.set c (v[c] + v[d])
  v.set b (rotateLeft (v[b] ^^^ v[c]) 7)

def doubleRound (v : Block) : Block :=
  let v := quarterRound 0 4 8 12 v
  let v := quarterRound 1 5 9 13 v
  let v := quarterRound 2 6 10 14 v
  let v := quarterRound 3 7 11 15 v
  let v := quarterRound 0 5 10 15 v
  let v := quarterRound 1 6 11 12 v
  let v := quarterRound 2 7 8 13 v
  quarterRound 3 4 9 14 v

def rounds : Nat → Block → Block
  | 0, v => v
  | n + 1, v => rounds n (doubleRound v)

def start (key : Vector UInt32 8) (counter : UInt64) : Block :=
  #v[0x61707865, 0x3320646e, 0x79622d32, 0x6b206574,
    key[0], key[1], key[2], key[3], key[4], key[5], key[6], key[7],
    counter.toUInt32, (counter >>> 32).toUInt32, 0, 0]

def block (key : Vector UInt32 8) (counter : UInt64) : Block :=
  (rounds 4 (start key counter)).zipWith (· + ·) (start key counter)

end ChaCha

-- The key, the number of the next block, and the words of the last one that were not drawn yet.
structure ChaCha where
  key : Vector UInt32 8
  counter : UInt64
  words : List UInt32

namespace ChaCha

def draw (low high : UInt32) : UInt64 := (high.toUInt64 <<< 32) ||| low.toUInt64

def next (s : ChaCha) : UInt64 × ChaCha :=
  match s.words with
  | low :: high :: rest => (draw low high, {s with words := rest})
  | _ =>
    let words := block s.key s.counter
    (draw words[0] words[1], {s with counter := s.counter + 1, words := words.toList.drop 2})

def generator : Generator ChaCha := ⟨next⟩

-- One step of the congruential sequence that a short seed is spread by.
def spread (state : UInt64) : UInt64 := state * 6364136223846793005 + 11634580027462260723

def keyWord (state : UInt64) : UInt32 :=
  let x := (((state >>> 18) ^^^ state) >>> 27).toUInt32
  let n := (state >>> 59).toUInt32
  (x >>> n) ||| (x <<< ((32 - n) % 32))

def keyFrom : (words : Nat) → UInt64 → List UInt32
  | 0, _ => []
  | words + 1, state => keyWord (spread state) :: keyFrom words (spread state)

theorem length_keyFrom (words : Nat) (state : UInt64) : (keyFrom words state).length = words := by
  induction words generalizing state with
  | zero => rfl
  | succ words ih => simp [keyFrom, ih]

def ofSeed (seed : UInt64) : ChaCha :=
  ⟨⟨(keyFrom 8 seed).toArray, by simp [length_keyFrom]⟩, 0, []⟩

end ChaCha

def unitDraw (draw : UInt64) : Float := (draw >>> 11).toFloat * Float.ofBits 0x3ca0000000000000

-- A double from `low` up by less than `width`: 52 bits of a draw, between 1 and 2 at first.
def rangeDraw (low width : Float) (draw : UInt64) : Float :=
  (Float.ofBits ((draw >>> 12) ||| 0x3ff0000000000000) - 1) * width + low

end InSitu
