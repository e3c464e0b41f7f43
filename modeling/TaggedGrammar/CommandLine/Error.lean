import TaggedGrammar.CommandLine.Flag
import TaggedGrammar.Text.Quoted

/-!
# Errors of the command line

What can be wrong with the arguments themselves, before or after the grammar is read.
-/

namespace TaggedGrammar.CommandLine

/-- What is wrong with the arguments. -/
inductive UsageError where
  /-- An abbreviation stands for several options. -/
  | ambiguous (argument : String) (matching : List String)
  /-- An option that takes a value has none. -/
  | valueMissing (flag : Flag)
  /-- An option that takes no value has one. -/
  | valueIgnored (flag : Flag) (value : String)
  | notInteger (flag : Flag) (value : String)
  | grammarMissing
  | unrecognized (arguments : List String)
  /-- The value of an option, if it was given one, is no pair of a key and a value. -/
  | notAPair (option : String) (value : Option String)
  | nameMissing
deriving DecidableEq, Repr

/-- The error in words. -/
def UsageError.message : UsageError → String
  | ambiguous argument matching =>
    let listed := ", ".intercalate matching
    s!"ambiguous option: {argument} could match {listed}"
  | valueMissing flag => s!"argument {flag.title}: expected one argument"
  | valueIgnored flag value =>
    s!"argument {flag.title}: ignored explicit argument {Text.quoted value}"
  | notInteger flag value => s!"argument {flag.title}: invalid int value: {Text.quoted value}"
  | grammarMissing => "the following arguments are required: grammar"
  | unrecognized arguments => "unrecognized arguments: " ++ " ".intercalate arguments
  | notAPair option value =>
    let shown := (value.map Text.quoted).getD "[]"
    s!"{option} expects KEY=VALUE, got {shown}"
  | nameMissing => "name is required unless --expand, --list or --check is given"

/-- Why arguments ask for no run: they ask for help, or something is wrong with them. -/
inductive Refusal where
  | help
  | usage (e : UsageError)
deriving DecidableEq, Repr

end TaggedGrammar.CommandLine
