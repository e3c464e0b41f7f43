import TaggedGrammar.Grammar.Rule
import TaggedGrammar.Text.Quoted
import TaggedGrammar.Yaml.Fault

/-!
# Errors of documents

A document fails to describe cognates because it is malformed as a text, because its tree has
not the shape of a list of cognates, because a rule in it cannot be read, or because it asks for
a character that does not exist.
-/

namespace TaggedGrammar

/-- What is wrong with the shape of a group. -/
inductive GroupDefect where
  | notMapping
  | rulesMissing
  | tagsNotMapping
  | ruleNotScalar (kind : String)
  | tagNotScalar (key kind : String)
deriving DecidableEq, Repr

/-- What is wrong with the shape of a document. -/
inductive FormatError where
  /-- The text is no well-formed document. -/
  | malformed
  | notCollection (kind : String)
  | cognatesNotCollection
  | cognateNotMapping (kind : String)
  | nameMissing
  | nameNotScalar (kind : String)
  | groupsNotList (cognate : String)
  | group (index : Nat) (cognate : String) (defect : GroupDefect)
deriving DecidableEq, Repr

namespace FormatError

/-- The words for a collection that stands where a scalar should. -/
def notScalar (what kind : String) : String := s!"{what} must be a scalar, got {kind}"

/-- The error in words. -/
def message : FormatError → String
  | malformed => "invalid YAML"
  | notCollection kind => s!"grammar document must be a list or mapping, got {kind}"
  | cognatesNotCollection => "'cognates' must be a mapping or a list"
  | cognateNotMapping kind => s!"cognate must be a mapping, got {kind}"
  | nameMissing => "cognate has no 'name'"
  | nameNotScalar kind => notScalar "cognate name" kind
  | groupsNotList cognate => s!"cognate {Text.quoted cognate}: 'groups' must be a list"
  | group index cognate defect =>
    let place := s!"group {index} of cognate {Text.quoted cognate}"
    match defect with
    | .notMapping => s!"{place} must be a mapping"
    | .rulesMissing => s!"{place} has no 'rules' list"
    | .tagsNotMapping => s!"{place}: 'tags' must be a mapping"
    | .ruleNotScalar kind => notScalar (place ++ " rule") kind
    | .tagNotScalar key kind => notScalar (place ++ " tag " ++ Text.quoted key) kind

end FormatError

/-- Why a document describes no cognates. -/
inductive DocumentError where
  | format (e : FormatError)
  | invalidRule (e : InvalidRule)
  | character (e : Yaml.CharacterError)
deriving DecidableEq, Repr

namespace DocumentError

/-- The error in words. -/
def message : DocumentError → String
  | format e => e.message
  | invalidRule e => e.message
  | character e => e.message

/-- The error of a text with a fault. -/
def ofFault : Yaml.Fault → DocumentError
  | .malformed => format .malformed
  | .character e => character e

end DocumentError

end TaggedGrammar
