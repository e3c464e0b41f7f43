import TaggedGrammar.CommandLine.Bundle
import TaggedGrammar.CommandLine.Invocation
import TaggedGrammar.Grammar.Basic
import TaggedGrammar.Text.Numeral

/-!
# Reading arguments

The first plain argument is the path of the grammar. The one directly behind it is the name of
a cognate; a plain argument further on, even if there was no name, is one too many.

## Implementation notes

The arguments are read from left to right, and the first error counts. Only when all are read
does a missing path or an argument too many come to light.
-/

namespace TaggedGrammar.CommandLine

/-- What a plain argument or a separator is taken for. -/
inductive Expected where
  | grammar
  /-- The grammar was just read, so a name may follow. -/
  | name
  /-- The name was just read, so a separator does no harm. -/
  | separator
  | nothing
deriving DecidableEq, Repr

/-- What is known after some arguments. -/
structure Reading where
  /-- What is asked for so far; the path is empty while none was read. -/
  invocation : Invocation
  expected : Expected
  /-- The arguments that have no meaning. -/
  surplus : List String
deriving DecidableEq, Repr

namespace Reading

/-- Before the first argument. -/
def initial : Reading :=
  ⟨⟨"", none, some 1, none, [], [], none, false, false, some Grammar.defaultMaxDepth, false⟩,
    .grammar, []⟩

/-- Changes what is asked for. -/
def update (r : Reading) (f : Invocation → Invocation) : Reading :=
  { r with invocation := f r.invocation }

/-- Takes an argument that has no meaning. -/
def discard (r : Reading) (text : String) : Reading :=
  { r with surplus := r.surplus ++ [text] }

/-- Takes a plain argument. -/
def takePlain (r : Reading) (text : String) : Reading :=
  match r.expected with
  | .grammar => { r.update fun i => { i with grammar := text } with expected := .name }
  | .name =>
    { r.update fun i => { i with name := given text } with expected := .separator }
  | _ => { r.discard text with expected := .nothing }

/-- Takes a separator. -/
def takeSeparator (r : Reading) : Reading :=
  if r.expected == .nothing then r.discard "--" else r

/-- Goes on behind an option, where no name may follow any more. -/
def passOption (r : Reading) : Reading :=
  if r.expected == .grammar then r else { r with expected := .nothing }

/-- The number that the value of an option writes, if it is given one. -/
def integer (flag : Flag) : Option String → Except Refusal (Option Int)
  | none => .ok none
  | some value =>
    match Text.integer? value with
    | some n => .ok (some n)
    | none => .error (.usage (.notInteger flag value))

/-- Takes an option with what it is given. -/
def takeFlag (r : Reading) (flag : Flag) (value : Option String) : Except Refusal Reading :=
  match flag with
  | .help => .error .help
  | .count => (integer flag value).map fun n => r.update fun i => { i with count := n }
  | .seed => (integer flag value).map fun n => r.update fun i => { i with seed := some n }
  | .maxDepth => (integer flag value).map fun n => r.update fun i => { i with maxDepth := n }
  | .tag => .ok (r.update fun i => { i with tags := i.tags ++ [value] })
  | .bind => .ok (r.update fun i => { i with binds := i.binds ++ [value] })
  | .expand => .ok (r.update fun i => { i with expand := some value })
  | .list => .ok (r.update fun i => { i with list := true })
  | .check => .ok (r.update fun i => { i with check := true })
  | .verbose => .ok (r.update fun i => { i with verbose := true })

/-- Takes options one after the other. -/
def takeFlags (r : Reading) : List (Flag × Option String) → Except Refusal Reading
  | [] => .ok r
  | (flag, value) :: rest =>
    match r.takeFlag flag value with
    | .ok next => next.takeFlags rest
    | .error e => .error e

/-- Takes arguments one after the other, up to the first error. -/
def takeArguments (r : Reading) (arguments : List Argument) : Except Refusal Reading :=
  match arguments with
  | [] => .ok r
  | .plain text :: rest => (r.takePlain text).takeArguments rest
  | .separator :: rest => r.takeSeparator.takeArguments rest
  | .unknown text :: rest => (r.passOption.discard text).takeArguments rest
  | .option flag attached :: rest =>
    match h : Bundle.ofAttached flag rest attached with
    | .error e => .error (.usage e)
    | .ok b =>
      have := Bundle.shrinks_ofAttached flag rest attached b h
      match r.passOption.takeFlags b.uses with
      | .ok next => next.takeArguments b.rest
      | .error e => .error e
termination_by arguments.length

/-- What is asked for when all arguments are read. -/
def finish (r : Reading) : Except Refusal Invocation :=
  if r.expected == .grammar then .error (.usage .grammarMissing)
  else if r.surplus.isEmpty then .ok r.invocation
  else .error (.usage (.unrecognized r.surplus))

end Reading

/-- What arguments ask for. -/
def Invocation.ofArguments (arguments : List String) : Except Refusal Invocation :=
  match Argument.ofStrings arguments with
  | .error e => .error (.usage e)
  | .ok found =>
    match Reading.initial.takeArguments found with
    | .error e => .error e
    | .ok r => r.finish

end TaggedGrammar.CommandLine
