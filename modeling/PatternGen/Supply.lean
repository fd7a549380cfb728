import PatternGen.Sampler

/-!
# Supplies of numbers

Deterministic samplers: the ends and the middle of the asked interval, lists of numbers, and a
linear congruential generator.

Results:
* `Supply.generator_withinBounds`: the generator, from which the program draws, answers every
  question within its bounds.
-/

namespace PatternGen

/-- A supply of numbers, in its present state. A list is read in a circle, and `asked` counts the
questions so far. -/
inductive Supply where
  | lowest
  | highest
  | midpoint
  /-- The numbers of a list, reduced to the interval. -/
  | script (values : Array Nat) (asked : Nat)
  /-- The numbers of a list as they are. -/
  | raw (values : Array Nat) (asked : Nat)
  /-- What the generator answers from a state. -/
  | congruential (state : Nat)
deriving Inhabited

namespace Supply

/-- Brings a number into the interval from `lo` to `hi`. A 64-bit number stays as it is in the
interval of all of them. -/
def reduce (lo hi value : Nat) : Nat := lo + value % (hi - lo + 1)

/-- The next state of the linear congruential sequence. -/
def advance (state : Nat) : Nat := (state * 6364136223846793005 + 1442695040888963407) % UInt64.size

/-- The generator: the upper bits of the next state, reduced to the interval. -/
def generator : Sampler Nat := fun lo hi state =>
  (reduce lo hi (advance state >>> 33), advance state)

/-- The number at place `k` of a list read in a circle. -/
def circular? (values : Array Nat) (k : Nat) : Option Nat := values[k % values.size]?

/-- The answer of a supply. -/
def sampler : Sampler Supply := fun lo hi supply =>
  match supply with
  | lowest => (lo, lowest)
  | highest => (hi, highest)
  | midpoint => (lo + (hi - lo + 1) / 2, midpoint)
  | script values asked =>
    (((circular? values asked).map (reduce lo hi)).getD lo, script values (asked + 1))
  | raw values asked => ((circular? values asked).getD lo, raw values (asked + 1))
  | congruential state =>
    let (value, state) := generator lo hi state
    (value, congruential state)

theorem reduce_mem {lo hi : Nat} (h : lo ≤ hi) (value : Nat) :
    lo ≤ reduce lo hi value ∧ reduce lo hi value ≤ hi := by
  have := Nat.mod_lt value (show 0 < hi - lo + 1 by omega)
  rw [reduce]
  omega

theorem generator_withinBounds : generator.WithinBounds := by
  intro lo hi state h
  exact reduce_mem h (advance state >>> 33)

end Supply

end PatternGen
