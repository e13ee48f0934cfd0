/-!
# The ChaCha12 keystream

ChaCha turns a key of eight words and the number of a block into a block of sixteen words: the
state holds four constants, the key and the block number, is stirred by a number of rounds, and is
added to what it was. Twelve rounds are used here, as six double rounds. The block number takes two
words, low word first, and the last two words of the state are zero.
-/

namespace Chomsky.Random

abbrev Key := Vector UInt32 8

/-- The state that is stirred, and the words of a block. -/
abbrev Block := Vector UInt32 16

/-- The bits of a word moved to the left by `n` places, those that leave it entering on the
right. -/
def rotateLeft (x n : UInt32) : UInt32 :=
  (x <<< n) ||| (x >>> (32 - n))

/-- The bits of a word moved to the right by `n` places, those that leave it entering on the
left. -/
def rotateRight (x n : UInt32) : UInt32 :=
  (x >>> n) ||| (x <<< (32 - n))

/-- Stirs four words of the state. -/
def quarterRound (s : Block) (a b c d : Fin 16) : Block :=
  let s := s.set a (s[a] + s[b])
  let s := s.set d (rotateLeft (s[d] ^^^ s[a]) 16)
  let s := s.set c (s[c] + s[d])
  let s := s.set b (rotateLeft (s[b] ^^^ s[c]) 12)
  let s := s.set a (s[a] + s[b])
  let s := s.set d (rotateLeft (s[d] ^^^ s[a]) 8)
  let s := s.set c (s[c] + s[d])
  s.set b (rotateLeft (s[b] ^^^ s[c]) 7)

/-- A round on the four columns of the state and a round on its four diagonals. -/
def doubleRound (s : Block) : Block :=
  let s := quarterRound s 0 4 8 12
  let s := quarterRound s 1 5 9 13
  let s := quarterRound s 2 6 10 14
  let s := quarterRound s 3 7 11 15
  let s := quarterRound s 0 5 10 15
  let s := quarterRound s 1 6 11 12
  let s := quarterRound s 2 7 8 13
  quarterRound s 3 4 9 14

/-- The state before stirring. -/
def initialBlock (key : Key) (number : UInt64) : Block :=
  #v[0x61707865, 0x3320646e, 0x79622d32, 0x6b206574,
    key[0], key[1], key[2], key[3], key[4], key[5], key[6], key[7],
    number.toUInt32, (number >>> 32).toUInt32, 0, 0]

/-- The block of the keystream with the given number. -/
def keystreamBlock (key : Key) (number : UInt64) : Block :=
  let initial := initialBlock key number
  let stirred := Nat.repeat doubleRound 6 initial
  Vector.zipWith (· + ·) initial stirred

/-! ## Keys from seeds

A key is drawn from a seed of 64 bits by a linear congruence. Each step of it gives one word, whose
bits are mixed and rotated by an amount that the highest bits decide. -/

/-- One step of the congruence. -/
def seedStep (state : UInt64) : UInt64 :=
  state * 6364136223846793005 + 11634580027462260723

/-- The word that a state of the congruence gives. -/
def seedWord (state : UInt64) : UInt32 :=
  let mixed := (((state >>> 18) ^^^ state) >>> 27).toUInt32
  rotateRight mixed (state >>> 59).toUInt32

/-- The key of a seed. -/
def keyOfSeed (seed : UInt64) : Key :=
  Vector.ofFn fun i => seedWord (Nat.repeat seedStep (i + 1) seed)

end Chomsky.Random
