/-!
# Tokens

A template reads as a list of tokens: text that stands for itself, and substitutions.

## Implementation notes

Tokens may be built by hand as well as read from a template. A command is therefore kept by
its name, which need not be known, and `stray` stands for a bare text in the place of a token.
Both come to light only when the token is evaluated.
-/

namespace TaggedGrammar

/-- A piece of a template. -/
inductive Token where
  /-- Text that stands for itself. -/
  | literal (text : String)
  /-- A reference to a cognate or a binding. -/
  | nonTerminal (name : String)
  /-- A reference whose expansion is bound to its name. -/
  | sticky (name : String)
  /-- The value of a binding. -/
  | binding (name : String)
  /-- A random number from `lower` up to but not including `upper`. -/
  | range (lower upper : Int)
  /-- The expansion of a cognate, bound to a name. -/
  | assignment (name rule : String)
  /-- A command applied to the text of another token. -/
  | expression (command : String) (inner : Token)
  /-- A text that is no token. -/
  | stray (value : String)
deriving DecidableEq, Inhabited, Repr

namespace Token

/-- The text of a literal. -/
def text? : Token → Option String
  | literal text => some text
  | _ => none

/-- The text of a list of tokens that are all literals. -/
def literalText? (tokens : List Token) : Option String := (tokens.mapM text?).map String.join

end Token

end TaggedGrammar
