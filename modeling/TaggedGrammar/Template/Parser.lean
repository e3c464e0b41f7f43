import TaggedGrammar.Template.Substitution

/-!
# Reading templates

A template is text with substitutions between `<` and `>`. A bracket behind a backslash stands
for itself, and so does a `<` inside a substitution. The reader first compares how many
brackets of both kinds are not escaped and then takes one character after the other.

## Implementation notes

`Scan` is what is known after some characters. `pending` holds the characters since `start`,
the latest first, so a substitution that closes has its body there and a literal run its text.
-/

namespace TaggedGrammar.Template

/-- How often a bracket stands behind a backslash. -/
def escapedCount (bracket : Char) : List Char → Nat
  | [] => 0
  | [_] => 0
  | c :: d :: cs =>
    if c = '\\' ∧ d = bracket then escapedCount bracket cs + 1
    else escapedCount bracket (d :: cs)

/-- How often a bracket stands without a backslash before it. -/
def unescapedCount (bracket : Char) (cs : List Char) : Nat :=
  cs.count bracket - escapedCount bracket cs

/-- Drops one backslash before each bracket. -/
def unescape : List Char → List Char
  | [] => []
  | [c] => [c]
  | c :: d :: cs =>
    if c = '\\' ∧ (d = '<' ∨ d = '>') then d :: unescape cs else c :: unescape (d :: cs)

/-- The token of a run of text. -/
def literal (run : List Char) : Token := .literal (String.ofList (unescape run))

/-- What is known after some characters of a template. -/
structure Scan where
  /-- The tokens that are complete. -/
  tokens : List Token
  /-- Whether a substitution is open. -/
  inside : Bool
  /-- The position behind the last bracket that opened or closed a substitution. -/
  start : Nat
  /-- The characters since `start`, the latest first. -/
  pending : List Char
  /-- The number of characters seen. -/
  position : Nat
  /-- The last character seen. -/
  previous : Option Char
deriving DecidableEq, Repr

namespace Scan

/-- The state before the first character. -/
def initial : Scan := ⟨[], false, 0, [], 0, none⟩

/-- The tokens, with the pending characters as a literal where there are any. -/
def flush (s : Scan) : List Token :=
  if s.pending.isEmpty then s.tokens else s.tokens ++ [literal s.pending.reverse]

/-- Goes on behind a bracket that opened or closed a substitution. -/
def restart (s : Scan) (c : Char) (tokens : List Token) (inside : Bool) : Scan :=
  ⟨tokens, inside, s.position + 1, [], s.position + 1, some c⟩

/-- Takes a character into the pending ones. -/
def push (s : Scan) (c : Char) : Scan :=
  { s with pending := c :: s.pending, position := s.position + 1, previous := some c }

/-- Takes the next character. -/
def step (s : Scan) (c : Char) : Except ParseError Scan :=
  if c = '<' ∧ s.previous ≠ some '\\' ∧ s.inside = false then
    .ok (s.restart c s.flush true)
  else if c = '>' ∧ s.previous ≠ some '\\' then
    if s.inside then
      (substitution s.pending.reverse s.start).map fun token =>
        s.restart c (s.tokens ++ [token]) false
    else .error (.within .unbalancedBrackets s.position (s.position + 1))
  else .ok (s.push c)

/-- Takes characters one after the other, up to the first error. -/
def run (s : Scan) : List Char → Except ParseError Scan
  | [] => .ok s
  | c :: cs =>
    match s.step c with
    | .ok next => next.run cs
    | .error e => .error e

@[simp] theorem run_nil (s : Scan) : s.run [] = .ok s := rfl

theorem run_append (s : Scan) (cs ds : List Char) :
    s.run (cs ++ ds) = (s.run cs).bind fun t => t.run ds := by
  induction cs generalizing s with
  | nil => rfl
  | cons c cs ih =>
    simp only [List.cons_append, run]
    cases s.step c with
    | ok next => exact ih next
    | error e => rfl

end Scan

/-- Reads the characters of a template. -/
def parseChars (cs : List Char) : Except ParseError (List Token) :=
  if cs.isEmpty then .error (.whole .emptyRule)
  else if unescapedCount '<' cs ≠ unescapedCount '>' cs then
    .error (.whole .unbalancedBrackets)
  else (Scan.initial.run cs).map Scan.flush

/-- Reads a template into its tokens. -/
def parse (template : String) : Except ParseError (List Token) := parseChars template.toList

end TaggedGrammar.Template
