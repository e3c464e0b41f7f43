/-!
# Chance

Random choices are answered from an endless stream of integers, one for each draw. A draw
from a half-open interval takes the next integer of the stream into the interval by its
remainder. The draws made so far are kept in order.
-/

namespace TaggedGrammar

/-- A draw from the integers from `lower` up to but not including `upper`. -/
structure Draw where
  lower : Int
  upper : Int
  value : Int
deriving DecidableEq, Repr

/-- A stream of integers and the draws that were answered from it. -/
structure Chance where
  stream : Nat → Int
  draws : Array Draw

namespace Chance

/-- The stream before the first draw. -/
def ofStream (stream : Nat → Int) : Chance := ⟨stream, #[]⟩

/-- The stream of the integers in an array, followed by zeros. -/
def ofArray (xs : Array Int) : Chance := ofStream fun i => xs.getD i 0

/-- The answer to the next draw. -/
def value (c : Chance) (lower upper : Int) : Int :=
  lower + (c.stream c.draws.size).emod (upper - lower)

/-- The stream after the next draw. -/
def draw (c : Chance) (lower upper : Int) : Chance :=
  { c with draws := c.draws.push ⟨lower, upper, c.value lower upper⟩ }

theorem le_value {c : Chance} {lower upper : Int} (h : lower < upper) :
    lower ≤ c.value lower upper := by
  have := Int.emod_nonneg (c.stream c.draws.size) (b := upper - lower) (by omega)
  have e : c.value lower upper = lower + c.stream c.draws.size % (upper - lower) := rfl
  omega

theorem value_lt {c : Chance} {lower upper : Int} (h : lower < upper) :
    c.value lower upper < upper := by
  have := Int.emod_lt_of_pos (c.stream c.draws.size) (b := upper - lower) (by omega)
  have e : c.value lower upper = lower + c.stream c.draws.size % (upper - lower) := rfl
  omega

@[simp] theorem draws_draw (c : Chance) (lower upper : Int) :
    (c.draw lower upper).draws = c.draws.push ⟨lower, upper, c.value lower upper⟩ := rfl

@[simp] theorem stream_draw (c : Chance) (lower upper : Int) :
    (c.draw lower upper).stream = c.stream := rfl

end Chance

end TaggedGrammar
