import TaggedGrammar.Template.Parser

/-!
# Rules

A rule is a template together with its tokens. `Rule.ofLiteral` is the way to make one from a
template; `Rule.Parsed` says of a rule that it was made that way.

## Implementation notes

That the tokens are those of the template is no field of the type, since rules whose tokens
were changed after reading are rules as well.
-/

namespace TaggedGrammar

/-- A template and its tokens. -/
structure Rule where
  literal : String
  tokens : List Token
deriving DecidableEq, Repr

/-- A template that cannot be read, and why. -/
structure InvalidRule where
  literal : String
  error : ParseError
deriving DecidableEq, Repr

/-- The error shown with its template. -/
def InvalidRule.message (e : InvalidRule) : String := e.error.describe e.literal

namespace Rule

/-- The rule of a template. -/
def ofLiteral (literal : String) : Except InvalidRule Rule :=
  match Template.parse literal with
  | .ok tokens => .ok ⟨literal, tokens⟩
  | .error e => .error ⟨literal, e⟩

/-- The rules of templates in order, up to the first that cannot be read. -/
def ofLiterals : List String → Except InvalidRule (List Rule)
  | [] => .ok []
  | literal :: rest =>
    match ofLiteral literal with
    | .error e => .error e
    | .ok rule => (ofLiterals rest).map (rule :: ·)

/-- The tokens of the rule are those of its template. -/
def Parsed (r : Rule) : Prop := Template.parse r.literal = .ok r.tokens

theorem ofLiteral_eq_ok_iff {literal : String} {r : Rule} :
    ofLiteral literal = .ok r ↔ r.literal = literal ∧ r.Parsed := by
  cases r with
  | mk text tokens =>
    simp only [ofLiteral, Parsed]
    cases h : Template.parse literal with
    | ok found =>
      simp only [Except.ok.injEq, mk.injEq]
      constructor
      · rintro ⟨rfl, rfl⟩; exact ⟨rfl, h⟩
      · rintro ⟨rfl, ht⟩; rw [h] at ht; exact ⟨rfl, Except.ok.inj ht⟩
    | error e =>
      constructor
      · intro he; cases he
      · rintro ⟨rfl, ht⟩; rw [h] at ht; cases ht

theorem ofLiteral_eq_error_iff {literal : String} {e : InvalidRule} :
    ofLiteral literal = .error e ↔
      e.literal = literal ∧ Template.parse literal = .error e.error := by
  cases e with
  | mk text error =>
    simp only [ofLiteral]
    cases h : Template.parse literal with
    | ok found =>
      constructor
      · intro he; cases he
      · rintro ⟨_, ht⟩; cases ht
    | error found =>
      simp only [Except.error.injEq, InvalidRule.mk.injEq]
      exact ⟨fun ⟨a, b⟩ => ⟨a.symm, b⟩, fun ⟨a, b⟩ => ⟨a.symm, b⟩⟩

end Rule

end TaggedGrammar
