/-!
# Errors of templates

A template that cannot be read has a defect and, in most cases, the half-open span of the
piece that is at fault. Positions count characters.

## Implementation notes

The parser only gives spans within the template. Positions are integers all the same, because
an error may be built by hand, and then any span can be put on it.
-/

namespace TaggedGrammar

/-- What is wrong with a template. -/
inductive Defect where
  | emptyRule
  | internal
  | invalidExpression
  | invalidName
  | invalidRange
  | unbalancedBrackets
  | unknownCommand
  | zeroLengthSubstitution
  | unspecified
deriving DecidableEq, Repr

namespace Defect

/-- The defect in words. -/
def description : Defect → String
  | emptyRule => "empty rule"
  | internal => "internal parser error"
  | invalidExpression => "invalid expression"
  | invalidName => "invalid name"
  | invalidRange => "invalid range"
  | unbalancedBrackets => "unbalanced brackets"
  | unknownCommand => "unknown command"
  | zeroLengthSubstitution => "zero-length substitution"
  | unspecified => "parse error"

end Defect

/-- Where a defect lies: a half-open span, or no known place. A place without a beginning may
still hold an end, which tells it from other such places and is shown nowhere. -/
inductive Place where
  | span (first last : Int)
  | nowhere (last : Option Int)
deriving DecidableEq, Repr

namespace Place

/-- The span, if there is one. -/
def span? : Place → Option (Int × Int)
  | span first last => some (first, last)
  | nowhere _ => none

end Place

/-- Why a template cannot be read. -/
structure ParseError where
  defect : Defect
  place : Place
deriving DecidableEq, Repr

/-- A line with carets under the half-open span of the line above it, at least one. A span
that begins before the line is marked from the beginning of the line. -/
def caretLine (first last : Int) : String :=
  String.ofList (List.replicate first.toNat ' ' ++ List.replicate (max (last - first) 1).toNat '^')

namespace ParseError

/-- The error of a template as a whole. -/
def whole (defect : Defect) : ParseError := ⟨defect, .nowhere none⟩

/-- The error of the piece from position `first` up to position `last`. -/
def within (defect : Defect) (first last : Nat) : ParseError := ⟨defect, .span first last⟩

/-- The span of the error, if it has one. -/
def span? (e : ParseError) : Option (Int × Int) := e.place.span?

/-- The defect in words, with the span where there is one. -/
def message (e : ParseError) : String :=
  match e.span? with
  | some (first, last) => s!"{e.defect.description} at {first}..{last}"
  | none => e.defect.description

/-- The message, the template under it and, where there is a span, a line of carets. -/
def describe (template : String) (e : ParseError) : String :=
  match e.span? with
  | some (first, last) => e.message ++ "\n" ++ template ++ "\n" ++ caretLine first last
  | none => e.message ++ "\n" ++ template

end ParseError

end TaggedGrammar
