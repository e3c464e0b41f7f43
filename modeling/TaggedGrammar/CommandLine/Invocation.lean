import TaggedGrammar.CommandLine.Argument
import TaggedGrammar.Context
import TaggedGrammar.Text.Blank

/-!
# Invocations

An invocation is what the arguments of a run ask for. Tags and bindings are given as pairs of a
key and a value with an equals sign between them.

## Implementation notes

An option that is given nothing is told from one that does not stand in the arguments: of the
two options around the value of `seed` and `expand`, the outer one is missing in the second
case only.
-/

namespace TaggedGrammar.CommandLine

/-- What the arguments ask for. -/
structure Invocation where
  grammar : String
  name : Option String
  count : Option Int
  seed : Option (Option Int)
  tags : List (Option String)
  binds : List (Option String)
  expand : Option (Option String)
  list : Bool
  check : Bool
  maxDepth : Option Int
  verbose : Bool
deriving DecidableEq, Repr

namespace Invocation

/-- Splits `key=value` at the first equals sign, without the blanks around the key. -/
def pair? (s : String) : Option (String × String) :=
  match Argument.splitEquals s.toList with
  | (key, some value) => some (String.ofList (Text.trim key), String.ofList value)
  | (_, none) => none

/-- The pairs that an option was given, under the spelling that errors show. -/
def pairs (option : String) : List (Option String) → Except UsageError (List (String × String))
  | [] => .ok []
  | value :: rest =>
    match value.bind pair? with
    | some p => (pairs option rest).map (p :: ·)
    | none => .error (.notAPair option value)

/-- The context that every expansion starts with. -/
def context (i : Invocation) : Except UsageError Context :=
  match pairs "--tag" i.tags with
  | .error e => .error e
  | .ok tags =>
    (pairs "--bind" i.binds).map fun binds =>
      .ofTables (.ofList tags) (.ofList binds)

end Invocation

end TaggedGrammar.CommandLine
