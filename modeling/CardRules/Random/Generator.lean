import CardRules.Random.ChaCha

/-!
A generator of chances: a place in a ChaCha stream whose key is spread from a seed of 64 bits.
-/

namespace CardRules.Random

/-- A generator, by the key of its stream and the number of words drawn from it so far. -/
structure Generator where
  secret : Secret
  drawn : Nat
deriving DecidableEq

namespace Generator

/-- One step of the congruential generator that spreads a seed. -/
def spreadStep (state : UInt64) : UInt64 :=
  state * 6364136223846793005 + 11634580027462260723

/-- The word that a state of the spreading generator gives: bits of its upper half, turned to the
right by its topmost five bits. -/
def spreadWord (state : UInt64) : UInt32 :=
  let mixed := (((state >>> 18) ^^^ state) >>> 27).toUInt32
  let places := (state >>> 59).toUInt32
  (mixed >>> places) ||| (mixed <<< ((32 - places) % 32))

/-- The generator of a seed. -/
def ofSeed (seed : UInt64) : Generator :=
  let states := (List.range 8).foldl
    (fun (states : List UInt64) _ => spreadStep (states.headD seed) :: states) []
  let words := states.reverse.map spreadWord
  ⟨Vector.ofFn fun i => words.getD i 0, 0⟩

/-- Draws the next word of the stream. -/
def draw (generator : Generator) : UInt64 × Generator :=
  (word generator.secret generator.drawn, { generator with drawn := generator.drawn + 1 })

/-- Whether an event of a probability between zero and one happens. Certainty draws nothing;
any other probability, zero too, draws one word and asks whether it is below that fraction of all
words. -/
def chance (probability : Float) : StateM Generator Bool := fun generator =>
  if probability == 1 then (true, generator)
  else
    -- A draw is below the bound in that fraction of all cases.
    let (drawn, generator) := generator.draw
    (drawn < (probability * 18446744073709551616).toUInt64, generator)

end Generator

end CardRules.Random
