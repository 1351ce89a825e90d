/-!
The ChaCha stream with eight rounds and a block counter of 64 bits, read as a sequence of 64-bit
words. The whole stream is a function of the key; a reader only keeps its place in it.
-/

namespace CardRules.Random

/-- The sixteen words that a block is computed from. -/
abbrev Block := Vector UInt32 16

/-- The eight words of a key. -/
abbrev Secret := Vector UInt32 8

/-- Turns a word to the left. -/
def turn (word : UInt32) (places : UInt32) : UInt32 :=
  (word <<< places) ||| (word >>> (32 - places))

/-- The quarter round on four words of a block. -/
def quarterRound (a b c d : Fin 16) (block : Block) : Block :=
  let block := block.set a (block[a] + block[b])
  let block := block.set d (turn (block[d] ^^^ block[a]) 16)
  let block := block.set c (block[c] + block[d])
  let block := block.set b (turn (block[b] ^^^ block[c]) 12)
  let block := block.set a (block[a] + block[b])
  let block := block.set d (turn (block[d] ^^^ block[a]) 8)
  let block := block.set c (block[c] + block[d])
  block.set b (turn (block[b] ^^^ block[c]) 7)

/-- Two rounds: the columns of the block, then its diagonals. -/
def doubleRound (block : Block) : Block :=
  let columns :=
    quarterRound 3 7 11 15 <| quarterRound 2 6 10 14 <|
      quarterRound 1 5 9 13 <| quarterRound 0 4 8 12 block
  quarterRound 3 4 9 14 <| quarterRound 2 7 8 13 <|
    quarterRound 1 6 11 12 <| quarterRound 0 5 10 15 columns

/-- The words a block starts from: four constants, the key, the number of the block, two zeros. -/
def start (secret : Secret) (number : Nat) : Block :=
  #v[0x61707865, 0x3320646e, 0x79622d32, 0x6b206574,
    secret[0], secret[1], secret[2], secret[3], secret[4], secret[5], secret[6], secret[7],
    UInt32.ofNat number, UInt32.ofNat (number / 0x100000000), 0, 0]

/-- A block of the stream: eight rounds on its start, added to the start. -/
def block (secret : Secret) (number : Nat) : Block :=
  let first := start secret number
  let mixed := doubleRound (doubleRound (doubleRound (doubleRound first)))
  first.zipWith (· + ·) mixed

/-- A word of 64 bits of the stream, by its place: two words of 32 bits, the low half first. -/
def word (secret : Secret) (place : Nat) : UInt64 :=
  let words := block secret (place / 8)
  let low : Fin 16 := Fin.ofNat 16 (2 * (place % 8))
  let high : Fin 16 := Fin.ofNat 16 (2 * (place % 8) + 1)
  words[low].toUInt64 ||| (words[high].toUInt64 <<< 32)

end CardRules.Random
