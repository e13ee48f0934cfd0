import Chomsky.Random.Keystream

/-!
# Random words and uniform choices

What a random derivation needs of a source of randomness is to be given the number of things to
choose from and to answer with one of them. A *chooser* may be any function, so what holds for every
chooser holds for every source. The rest of this module is the chooser of the program.

A source gives words of 32 bits, one after the other, and counts them. Its words are listed in
advance, with zeros after the last one, or they are the keystream of a key.

A choice among `n` things multiplies a word by `n`. The high half of the product is below `n` and
is the choice; the low half tells whether the word belongs to the part of all words that `n` divides
evenly, and words outside of it are passed over, so every choice is equally likely.
-/

namespace Chomsky.Random

/-- A way to choose, from a state that the choice may change. -/
structure Chooser (σ : Type) where
  /-- Chooses one of `n + 1` things. -/
  choose : (n : Nat) → σ → Fin (n + 1) × σ

/-! ## Words -/

/-- Where words come from. -/
inductive Supply where
  | listed (rest : List UInt32)
  /-- The keystream of a key. The block holds the word that comes next, unless a new block begins
  with it. -/
  | keyed (key : Key) (block : Block)

/-- A supply of words and the number of words that were taken from it. -/
structure Words where
  supply : Supply
  used : Nat

namespace Words

def ofList (words : List UInt32) : Words :=
  ⟨.listed words, 0⟩

def ofSeed (seed : UInt64) : Words :=
  ⟨.keyed (keyOfSeed seed) (.replicate 16 0), 0⟩

def next : Words → UInt32 × Words
  | ⟨.listed [], used⟩ => (0, ⟨.listed [], used + 1⟩)
  | ⟨.listed (word :: rest), used⟩ => (word, ⟨.listed rest, used + 1⟩)
  | ⟨.keyed key block, used⟩ =>
    let block :=
      if used % 16 = 0 then keystreamBlock key (UInt64.ofNat (used / 16)) else block
    (block[used % 16], ⟨.keyed key block, used + 1⟩)

/-! ## Uniform choices -/

/-- The largest low half of a product that is accepted in a choice among `n` things: one less than
the largest multiple of `n` by a power of two that fits into 32 bits. -/
def zone (n : Nat) : Nat :=
  (n <<< (31 - n.log2)) - 1

/-- Takes words until one is accepted, at most `tries` of them, and chooses one of `n + 1`
things. -/
def chooseWithin (n : Nat) : (tries : Nat) → Words → Fin (n + 1) × Words
  | 0, source => (0, source)
  | tries + 1, source =>
    let (word, source) := source.next
    let product := word.toNat * (n + 1)
    if product % UInt32.size ≤ zone (n + 1) then
      (Fin.ofNat (n + 1) (product / UInt32.size), source)
    else chooseWithin n tries source

/-- The number of words after which a keystream starts again: sixteen for each number of a block.
Listed words end long before, and a zero is always accepted. -/
def period : Nat := 16 * UInt64.size

/-- Uniform choices. -/
def chooser : Chooser Words where
  choose n source := chooseWithin n period source

end Words

end Chomsky.Random
