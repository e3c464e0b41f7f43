import TaggedGrammar.Grammar.Rule
import TaggedGrammar.Table

/-!
# Groups and cognates

A group holds rules that are chosen under the same tags. A cognate is a named list of groups.
Building from several templates is all or nothing: the first that cannot be read is the error,
and nothing has changed.
-/

namespace TaggedGrammar

/-- Rules under common tags, with a note for readers. -/
structure Group where
  rules : List Rule
  tags : Table String
  note : String
deriving DecidableEq

namespace Group

/-- A group without rules. -/
def ofTags (tags : Table String) (note : String) : Group := ⟨[], tags, note⟩

/-- The group of templates. -/
def ofLiterals (literals : List String) (tags : Table String) (note : String) :
    Except InvalidRule Group :=
  (Rule.ofLiterals literals).map fun rules => ⟨rules, tags, note⟩

/-- Appends the rule of a template. -/
def addRule (g : Group) (literal : String) : Except InvalidRule Group :=
  (Rule.ofLiteral literal).map fun rule => { g with rules := g.rules ++ [rule] }

/-- Appends the rules of templates. -/
def addRules (g : Group) (literals : List String) : Except InvalidRule Group :=
  (Rule.ofLiterals literals).map fun rules => { g with rules := g.rules ++ rules }

/-- Sets a tag. -/
def setTag (g : Group) (key value : String) : Group :=
  { g with tags := g.tags.insert key value }

/-- The templates of the rules. -/
def literals (g : Group) : List String := g.rules.map Rule.literal

end Group

/-- The number of rules in a list of groups. -/
def ruleTotal : List Group → Nat
  | [] => 0
  | g :: gs => g.rules.length + ruleTotal gs

/-- A named list of groups. -/
structure Cognate where
  name : String
  groups : List Group
deriving DecidableEq

namespace Cognate

/-- A cognate without groups. -/
def ofName (name : String) : Cognate := ⟨name, []⟩

/-- Appends a group. -/
def addGroup (c : Cognate) (g : Group) : Cognate := { c with groups := c.groups ++ [g] }

/-- Appends the group of templates. -/
def groupFromRules (c : Cognate) (literals : List String) (tags : Table String)
    (note : String) : Except InvalidRule Cognate :=
  (Group.ofLiterals literals tags note).map c.addGroup

/-- Changes the group at an index by a function that may fail. -/
def editGroup (c : Cognate) (i : Nat) (f : Group → Except InvalidRule Group) :
    Except InvalidRule Cognate :=
  match c.groups[i]? with
  | some g => (f g).map fun g' => { c with groups := c.groups.set i g' }
  | none => .ok c

/-- Whether the cognate has no groups. -/
def isEmpty (c : Cognate) : Bool := c.groups.isEmpty

/-- The number of rules in all groups. -/
def ruleCount (c : Cognate) : Nat := ruleTotal c.groups

/-- Every rule with the group that it belongs to, in order. -/
def taggedRules (c : Cognate) : List (Group × Rule) :=
  c.groups.flatMap fun g => g.rules.map fun r => (g, r)

end Cognate

end TaggedGrammar
