/-!
# Ranges of code points

A property of characters is kept as a list of closed ranges of code points, ascending and
apart. `covers` looks a number up and stops at the first range that begins above it.

## Implementation notes

The ranges of this folder follow version 14 of the character database.
-/

namespace TaggedGrammar.Text

/-- Closed ranges of code points, ascending and apart. -/
abbrev Ranges := List (Nat × Nat)

namespace Ranges

/-- Whether a number lies in one of the ranges. -/
def covers : Ranges → Nat → Bool
  | [], _ => false
  | (first, last) :: rest, n =>
    if n < first then false else if n ≤ last then true else covers rest n

/-- Each range is in order and begins more than one above the end of the range before it. -/
def ascending : Ranges → Bool
  | [] => true
  | [(first, last)] => first ≤ last
  | (first, last) :: (next, stop) :: rest =>
    first ≤ last && last + 1 < next && ascending ((next, stop) :: rest)

@[simp] theorem covers_nil (n : Nat) : covers [] n = false := rfl

theorem covers_cons (first last n : Nat) (rest : Ranges) :
    covers ((first, last) :: rest) n =
      if n < first then false else if n ≤ last then true else covers rest n := rfl

end Ranges

end TaggedGrammar.Text
