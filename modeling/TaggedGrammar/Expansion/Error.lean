import TaggedGrammar.Grammar.Rule
import TaggedGrammar.Text.Listing

/-!
# Errors of expansions

An expansion fails for want of a cognate, of rules, of groups that suit the tags or of a
binding, at the limit of nesting, or because a template cannot be read. The last two causes
only arise from tokens that were built by hand.
-/

namespace TaggedGrammar

/-- Why an expansion fails. -/
inductive ExpansionError where
  | unknownCognate (name : String)
  | emptyCognate (name : String)
  | noSuitableGroups (name : String) (tags : Table String)
  | unboundVariable (name : String)
  | recursionLimitExceeded (name : String) (limit : Int)
  | invalidRule (e : InvalidRule)
  /-- A token asks for a command of which nothing is known. -/
  | unknownCommand (name : String)
  /-- A text stands in the place of a token. -/
  | notAToken (value : String)
deriving DecidableEq

namespace ExpansionError

/-- The error in words. -/
def message : ExpansionError → String
  | unknownCognate name => s!"Unknown or unrecognised cognate: {name}"
  | emptyCognate name => s!"No rules in cognate: {name}"
  | noSuitableGroups name tags =>
    s!"No suitable groups for {name} in context: {Text.listing tags}"
  | unboundVariable name => s!"Unbound variable: {name}"
  | recursionLimitExceeded name limit =>
    s!"Recursion limit of {limit} exceeded while expanding: {name}"
  | invalidRule e => e.message
  | unknownCommand name => Text.quoted name
  | notAToken value => s!"not a token: {Text.quoted value}"

end ExpansionError

end TaggedGrammar
