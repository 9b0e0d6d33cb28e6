import FuzzPolicy.Random.Source

/-!
# The ChaCha word source

The source that sessions draw from: the words of the ChaCha stream cipher with eight rounds, under a
256-bit key that a 64-bit seed is stretched to. The words are a function of the seed and the
position alone, so any session can be replayed from its seed.

`Session.seed` gives the seeds: session `i` of a run under master seed `m` draws from seed `m + i`.
-/

namespace FuzzPolicy.ChaCha

/-- The sixteen 32-bit words that the rounds stir. -/
abbrev Block := Vector UInt32 16

/-- The word turned left by `k` places, for `0 < k < 32`. -/
def rotateLeft (w k : UInt32) : UInt32 :=
  (w <<< k) ||| (w >>> (32 - k))

/-- The quarter round on the words at four places. -/
def quarterRound (b : Block) (i j k l : Fin 16) : Block :=
  let x := b[i] + b[j]
  let w := rotateLeft (b[l] ^^^ x) 16
  let z := b[k] + w
  let y := rotateLeft (b[j] ^^^ z) 12
  let x := x + y
  let w := rotateLeft (w ^^^ x) 8
  let z := z + w
  let y := rotateLeft (y ^^^ z) 7
  (((b.set i x).set j y).set k z).set l w

/-- A round on the columns of the 4 × 4 square and one on its diagonals. -/
def doubleRound (b : Block) : Block :=
  let b := quarterRound b 0 4 8 12
  let b := quarterRound b 1 5 9 13
  let b := quarterRound b 2 6 10 14
  let b := quarterRound b 3 7 11 15
  let b := quarterRound b 0 5 10 15
  let b := quarterRound b 1 6 11 12
  let b := quarterRound b 2 7 8 13
  quarterRound b 3 4 9 14

/-- A key of eight words. -/
abbrev Key := Vector UInt32 8

/-- The square that the rounds start from: the constants, the key, the block's number in two words
and a nonce of zero. -/
def start (key : Key) (block : UInt64) : Block :=
  #v[0x61707865, 0x3320646e, 0x79622d32, 0x6b206574,
    key[0], key[1], key[2], key[3], key[4], key[5], key[6], key[7],
    block.toUInt32, (block >>> 32).toUInt32, 0, 0]

/-- The output block: eight rounds, and the start added to what they leave. -/
def block (key : Key) (n : UInt64) : Block :=
  let s := start key n
  let r := doubleRound (doubleRound (doubleRound (doubleRound s)))
  r.zipWith (· + ·) s

/-- The 64-bit word at a position: two words of a block make one, the low half first. -/
def wordAt (key : Key) (position : Nat) : UInt64 :=
  let b := block key (position / 8).toUInt64
  let k := 2 * (position % 8)
  have : k + 1 < 16 := by omega
  b[k].toUInt64 ||| (b[k + 1].toUInt64 <<< 32)

/-! ### From seed to key -/

/-- The state after one step of the linear generator that stretches a seed. -/
def stretch (s : UInt64) : UInt64 :=
  s * 6364136223846793005 + 11634580027462260723

/-- The key word that a state of that generator gives: its bits are folded together and turned by
its topmost five. -/
def fold (s : UInt64) : UInt32 :=
  let x := (((s >>> 18) ^^^ s) >>> 27).toUInt32
  let turn := (s >>> 59).toUInt32
  if turn = 0 then x else rotateLeft x (32 - turn)

/-- The key of a seed. -/
def keyOfSeed (seed : UInt64) : Key :=
  let s0 := stretch seed
  let s1 := stretch s0
  let s2 := stretch s1
  let s3 := stretch s2
  let s4 := stretch s3
  let s5 := stretch s4
  let s6 := stretch s5
  let s7 := stretch s6
  #v[fold s0, fold s1, fold s2, fold s3, fold s4, fold s5, fold s6, fold s7]

end FuzzPolicy.ChaCha

namespace FuzzPolicy.Source

/-- The source of a seed, of which nothing has been drawn. -/
def ofSeed (seed : UInt64) : Source :=
  let key := ChaCha.keyOfSeed seed
  { words := ChaCha.wordAt key, drawn := 0 }

end FuzzPolicy.Source
