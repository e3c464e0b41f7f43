import TaggedGrammar.Template.Command
import TaggedGrammar.Template.Error
import TaggedGrammar.Template.Token
import TaggedGrammar.Text.WordCharacter

/-!
# Substitutions

The body of a substitution is what stands between its brackets: a name, a name behind one of
the sigils `@`, `!` and `#`, an assignment `$name:rule`, or a command in parentheses before
another body. `substitution` reads a body and says which part of it is at fault if it cannot
be read.

## Main statements

* `command_length_lt`: the body behind a command is shorter than the body that holds it, so
  reading a body ends.
-/

namespace TaggedGrammar.Template

open Text

/-- The value of one or more ASCII digits. -/
def decimal? (cs : List Char) : Option Nat :=
  if !cs.isEmpty && cs.all Char.isDigit then
    some (cs.foldl (fun n c => 10 * n + (c.toNat - 48)) 0)
  else none

/-- The bounds in `lower-upper`, each of them ASCII digits and the first below the second. -/
def bounds? (cs : List Char) : Option (Nat × Nat) :=
  match decimal? (cs.takeWhile (· != '-')), cs.dropWhile (· != '-') with
  | some lower, _ :: rest => (decimal? rest).bind fun upper =>
      if lower < upper then some (lower, upper) else none
  | _, _ => none

/-- Reads `lower-upper`, which spans the positions from `first` up to `last`. -/
def range (cs : List Char) (first last : Nat) : Except ParseError Token :=
  match bounds? cs with
  | some (lower, upper) => .ok (.range lower upper)
  | none => .error (.within .invalidRange first last)

/-- Splits characters at the first colon. -/
def splitColon (cs : List Char) : Option (List Char × List Char) :=
  match cs.dropWhile (· != ':') with
  | _ :: rest => some (cs.takeWhile (· != ':'), rest)
  | [] => none

/-- Reads `name:rule`. Without a colon there is no assignment, which the callers that read a
template rule out beforehand. -/
def assignment (cs : List Char) : Except Defect Token :=
  match splitColon cs with
  | some (name, rule) => .ok (.assignment (String.ofList name) (String.ofList rule))
  | none => .error .internal

/-- Whether the characters are two names with a colon between them. -/
def isAssignment (cs : List Char) : Bool :=
  match splitColon cs with
  | some (name, rule) => isName name && isName rule
  | none => false

/-- The parts of a body in parentheses: the command, and the body behind it with the position
at which that begins. -/
structure CommandParts where
  command : Command
  inner : List Char
  first : Nat
deriving DecidableEq, Repr

/-- Takes a body in parentheses apart. The keyword ends at the first space, and blanks around
the body behind it do not count. -/
def command (body : List Char) (first : Nat) : Except ParseError CommandParts :=
  let last := first + body.length
  if body.length = 2 then .error (.within .zeroLengthSubstitution (first + 1) last)
  else if body.getLast? ≠ some ')' then .error (.within .invalidExpression first last)
  else
    let content := body.tail.dropLast
    let word := content.takeWhile (· != ' ')
    let rest := content.dropWhile (· != ' ')
    if rest.isEmpty then .error (.within .invalidExpression first last)
    else
      match Command.ofKeyword? (String.ofList word) with
      | none => .error (.within .unknownCommand (first + 1) (first + 1 + word.length))
      | some c =>
        let blanks := rest.length - (trimLeft rest).length
        .ok ⟨c, trim rest, first + 1 + word.length + blanks⟩

theorem command_length_lt {body : List Char} {first : Nat} {parts : CommandParts}
    (h : command body first = .ok parts) : parts.inner.length < body.length := by
  unfold command at h
  simp only at h
  split at h
  · cases h
  · split at h
    · cases h
    · split at h
      · cases h
      · split at h
        · cases h
        · cases h
          have hr := (List.dropWhile_sublist (fun c : Char => c != ' ')
            (l := body.tail.dropLast)).length_le
          have ht := length_trim_le (body.tail.dropLast.dropWhile (· != ' '))
          cases body with
          | nil => simp_all
          | cons c cs =>
            simp only [List.tail_cons, List.length_dropLast, List.length_cons] at hr ht ⊢
            omega

/-- Reads a body that is no command, from position `first`. -/
def plainSubstitution (body : List Char) (first : Nat) : Except ParseError Token :=
  let last := first + body.length
  match body with
  | [] => .error (.within .zeroLengthSubstitution first (first + 1))
  | '$' :: rest =>
    if isAssignment rest then (assignment rest).mapError fun d => .within d first last
    else .error (.within .invalidName first last)
  | '@' :: rest =>
    if isName rest then .ok (.binding (String.ofList rest))
    else .error (.within .invalidName first last)
  | '!' :: rest =>
    if isName rest then .ok (.sticky (String.ofList rest))
    else .error (.within .invalidName first last)
  | '#' :: rest =>
    if isName rest then range rest first last else .error (.within .invalidName first last)
  | _ =>
    if isName body then .ok (.nonTerminal (String.ofList body))
    else .error (.within .invalidName first last)

/-- Reads the body of a substitution, which begins at position `first`. -/
def substitution (body : List Char) (first : Nat) : Except ParseError Token :=
  if body.head? ≠ some '(' then plainSubstitution body first
  else if body.count '(' ≠ body.count ')' then
    .error (.within .invalidExpression first (first + body.length))
  else
    match h : command body first with
    | .error e => .error e
    | .ok parts =>
      have := command_length_lt h
      (substitution parts.inner parts.first).map (.expression parts.command.name)
termination_by body.length

end TaggedGrammar.Template
