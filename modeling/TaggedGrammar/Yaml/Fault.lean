/-!
# Faults of document texts

What can be wrong with a text that should be a document. A number that an escape writes and that
is no character is told from all other faults: it is no error of the document but of the place
that asked for the character.
-/

namespace TaggedGrammar.Yaml

/-- Why a number is no character. -/
inductive CharacterError where
  /-- The number is greater than that of every character. -/
  | outOfRange
  /-- The number does not fit into 31 bits. -/
  | tooLarge
deriving DecidableEq, Repr

/-- The error in words. -/
def CharacterError.message : CharacterError → String
  | outOfRange => "chr() arg not in range(0x110000)"
  | tooLarge => "Python int too large to convert to C int"

/-- What is wrong with a text. -/
inductive Fault where
  | malformed
  | character (e : CharacterError)
deriving DecidableEq, Repr

/-- What was read, where to have read nothing is a fault. -/
def orMalformed {α : Type} : Option α → Except Fault α
  | some a => .ok a
  | none => .error .malformed

/-- The character of a number. A number between the two ranges of characters makes a text
malformed. -/
def characterOf (n : Nat) : Except Fault Char :=
  if n.isValidChar then .ok (Char.ofNat n)
  else if n < 0x110000 then .error .malformed
  else if n < 0x80000000 then .error (.character .outOfRange)
  else .error (.character .tooLarge)

example : characterOf 0x10FFFF = .ok (Char.ofNat 0x10FFFF) := rfl

example : characterOf 0x110000 = .error (.character .outOfRange) := rfl

end TaggedGrammar.Yaml
