/-!
# A reproducible stream of random words

Random draws come from a stream cipher under a key that is made from a 64-bit seed, so the same
seed gives the same draws on every machine. The cipher is ChaCha with twelve rounds, a 64-bit block
counter from zero and stream number zero. A draw is two consecutive 32-bit words of the stream, the
low one first.

The key is filled by a linear congruential generator with a permuted output, eight words of 32
bits.
-/

namespace Bourse

/-- A stream of draws: the key, the number of the next block, and the draws that are left of the
current one. -/
structure Keystream where
  key : List UInt32
  block : UInt64
  pending : List UInt64

namespace Keystream

/-- The bits of a word moved to the left, those in front put back at the end. -/
def rotateLeft (x : UInt32) (n : UInt32) : UInt32 :=
  (x <<< n) ||| (x >>> (32 - n))

/-- The bits of a word moved to the right, those at the end put back in front. -/
def rotateRight (x : UInt32) (n : UInt32) : UInt32 :=
  if n = 0 then x else (x >>> n) ||| (x <<< (32 - n))

/-- The words of the key that a seed stands for. -/
def keyWords : Nat → UInt64 → List UInt32
  | 0, _ => []
  | n + 1, state =>
    let state := state * 6364136223846793005 + 11634580027462260723
    let word := rotateRight (((state >>> 18) ^^^ state) >>> 27).toUInt32 (state >>> 59).toUInt32
    word :: keyWords n state

/-- The stream of a seed at its beginning. -/
def ofSeed (seed : UInt64) : Keystream :=
  ⟨keyWords 8 seed, 0, []⟩

/-- One mixing step on four of the sixteen words. -/
def quarterRound (a b c d : Nat) (v : Vector UInt32 16) : Vector UInt32 16 :=
  let get (v : Vector UInt32 16) (i : Nat) : UInt32 := v[i]?.getD 0
  let put (v : Vector UInt32 16) (i : Nat) (x : UInt32) : Vector UInt32 16 := v.setIfInBounds i x
  let v := put v a (get v a + get v b)
  let v := put v d (rotateLeft (get v d ^^^ get v a) 16)
  let v := put v c (get v c + get v d)
  let v := put v b (rotateLeft (get v b ^^^ get v c) 12)
  let v := put v a (get v a + get v b)
  let v := put v d (rotateLeft (get v d ^^^ get v a) 8)
  let v := put v c (get v c + get v d)
  put v b (rotateLeft (get v b ^^^ get v c) 7)

/-- A round on the columns and a round on the diagonals. -/
def doubleRound (v : Vector UInt32 16) : Vector UInt32 16 :=
  let v := quarterRound 0 4 8 12 v
  let v := quarterRound 1 5 9 13 v
  let v := quarterRound 2 6 10 14 v
  let v := quarterRound 3 7 11 15 v
  let v := quarterRound 0 5 10 15 v
  let v := quarterRound 1 6 11 12 v
  let v := quarterRound 2 7 8 13 v
  quarterRound 3 4 9 14 v

/-- The words from which a block is mixed: four constants, the key, the block number and the stream
number. -/
def blockInput (key : List UInt32) (block : UInt64) : Vector UInt32 16 :=
  let k (i : Nat) : UInt32 := key[i]?.getD 0
  #v[0x61707865, 0x3320646e, 0x79622d32, 0x6b206574,
    k 0, k 1, k 2, k 3, k 4, k 5, k 6, k 7,
    block.toUInt32, (block >>> 32).toUInt32, 0, 0]

/-- The words of a block: the mixed words added to the words that they come from. -/
def blockWords (key : List UInt32) (block : UInt64) : List UInt32 :=
  let input := blockInput key block
  let mixed := (List.range 6).foldl (fun v _ => doubleRound v) input
  (mixed.toList.zip input.toList).map fun (a, b) => a + b

/-- Words taken in pairs, the low one first. -/
def pairs : List UInt32 → List UInt64
  | lo :: hi :: rest => (lo.toUInt64 ||| (hi.toUInt64 <<< 32)) :: pairs rest
  | _ => []

/-- The next draw. A new block is mixed if none is left. -/
def next : StateM Keystream UInt64 := fun s =>
  match s.pending with
  | w :: ws => (w, { s with pending := ws })
  | [] =>
    match pairs (blockWords s.key s.block) with
    | w :: ws => (w, { s with block := s.block + 1, pending := ws })
    | [] => (0, { s with block := s.block + 1 })

end Keystream

end Bourse
