import TaggedGrammar.Yaml.Fault

/-!
# Breakdowns

A run breaks down when something is missing or wrong that it does not check: then there is no
report, whatever has been printed before.
-/

namespace TaggedGrammar.CommandLine

/-- Why a run breaks down. -/
inductive Breakdown where
  /-- The document asks for a character that does not exist. -/
  | character (e : Yaml.CharacterError)
  /-- The path of the grammar holds a null character. -/
  | nullInPath
  /-- The option for the limit of nesting is given nothing. -/
  | maxDepthMissing
  /-- The option for the number of expansions is given nothing. -/
  | countMissing
  /-- The option for a template is given nothing. -/
  | templateMissing
deriving DecidableEq, Repr

/-- The breakdown in words. -/
def Breakdown.message : Breakdown → String
  | character e => e.message
  | nullInPath => "embedded null byte"
  | maxDepthMissing =>
    "int() argument must be a string, a bytes-like object or a real number, not 'list'"
  | countMissing => "'list' object cannot be interpreted as an integer"
  | templateMissing => "sequence item 1: expected str instance, list found"

end TaggedGrammar.CommandLine
