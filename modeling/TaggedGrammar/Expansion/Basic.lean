import TaggedGrammar.Expansion.Selection

/-!
# Expansion

`Grammar.generateWith` expands a cognate and `Grammar.expandWith` a template, both under a
context. Tokens are evaluated from left to right; a reference to a cognate opens a frame,
selects a rule and evaluates it there.

## Implementation notes

`expandCognate` counts the levels of nesting that are left below the limit. Evaluation leaves
as many frames open as it finds, so the levels left are always the limit less the open frames,
and the recursion on them is structural.

Two limits of an interpreter are left out. Nothing here runs out of stack: an interpreter that does,
below the limit of nesting, closes the frames that are still open and fails with
`recursionLimitExceeded`, at a depth that only depends on the interpreter. And a number has as many
digits as it needs, in a range as in an amount.
-/

namespace TaggedGrammar

/-- Takes a random number from `lower` up to but not including `upper`. The bounds are those of a
token that was parsed, with `lower` below `upper`; for others there is no such number, and what is
answered then means nothing. -/
def drawNumber (lower upper : Int) : Step String := fun s =>
  (.ok (toString (s.chance.value lower upper)), s.draw lower upper)

/-- The text bound to a name, or the answer of a step where the name is unbound. -/
def boundOr (name : String) (step : Step String) : Step String := fun s =>
  match s.context.binding? name with
  | some value => (.ok value, s)
  | none => step s

/-- Binds the value of a step to a name and records that. -/
def bindTo (name : String) (event : String → String → Event) (step : Step String) :
    Step String :=
  step.andThen fun value s =>
    (.ok value, (s.withContext (s.context.bind name value)).note (event name value))

/-- The text bound to a name. -/
def readBinding (name : String) : Step String := boundOr name (Step.fail (.unboundVariable name))

/-- Applies the command of a name to a text. -/
def applyCommand (name text : String) : Step String :=
  match Command.ofName? name with
  | some c => Step.pure (c.apply text)
  | none => Step.fail (.unknownCommand name)

/-- Evaluates a token, where `expand` expands the cognate of a name. -/
def evaluateToken (expand : String → Step String) : Token → Step String
  | .literal text => Step.pure text
  | .nonTerminal name => boundOr name (expand name)
  | .sticky name => boundOr name (bindTo name .stuck (expand name))
  | .binding name => readBinding name
  | .range lower upper => drawNumber lower upper
  | .assignment name rule => fun s =>
    if s.context.isBound name then (.ok "", s)
    else (bindTo name .assigned (expand rule)).andThen (fun _ => readBinding name) s
  | .expression command inner => (evaluateToken expand inner).andThen (applyCommand command)
  | .stray value => Step.fail (.notAToken value)

/-- Evaluates tokens from left to right and joins their texts. -/
def evaluateTokens (expand : String → Step String) : List Token → Step String
  | [] => Step.pure ""
  | token :: rest =>
    (evaluateToken expand token).andThen fun text => (evaluateTokens expand rest).map (text ++ ·)

namespace Grammar

/-- Expands the cognate of a name with so many levels of nesting left. -/
def expandCognate (g : Grammar) : Nat → String → Step String
  | 0, name => fun s =>
    (.error (.recursionLimitExceeded name g.maxDepth),
      s.note (.requested name s.context.depth))
  | levels + 1, name => fun s =>
    Step.inFrame
      ((g.select name).andThen fun rule => evaluateTokens (g.expandCognate levels) rule.tokens)
      (s.note (.requested name s.context.depth))

/-- The levels of nesting that are left in a context. -/
def levels (g : Grammar) (ctx : Context) : Nat := (g.maxDepth - ctx.depth).toNat

/-- Evaluates tokens without opening a frame. -/
def evaluate (g : Grammar) (tokens : List Token) : Step String := fun s =>
  evaluateTokens (g.expandCognate (g.levels s.context)) tokens s

/-- Expands the cognate of a name. -/
def generateWith (g : Grammar) (name : String) : Step String := fun s =>
  g.expandCognate (g.levels s.context) name s

/-- Expands a template in a frame of its own. -/
def expandWith (g : Grammar) (literal : String) : Step String :=
  match Rule.ofLiteral literal with
  | .error e => Step.fail (.invalidRule e)
  | .ok rule => Step.inFrame (g.evaluate rule.tokens)

end Grammar

end TaggedGrammar
