import TaggedGrammar.CommandLine.Breakdown
import TaggedGrammar.CommandLine.Folder
import TaggedGrammar.CommandLine.Reading
import TaggedGrammar.CommandLine.Report
import TaggedGrammar.Document.Basic
import TaggedGrammar.Expansion.Basic
import TaggedGrammar.Expansion.Series

/-!
# Runs of the command line

A run reads a grammar and checks it, lists its cognates, or prints a number of expansions, all
from the same tags and bindings. The first error ends it, and it either reports or breaks down.

## Implementation notes

How a file is read and which stream answers the draws are parameters, so a run is a function.
A seed is only recorded: whoever makes the stream looks at it first.
-/

namespace TaggedGrammar.CommandLine

/-- The name under which the log shows what the reader of documents does. -/
def readerName : String := "annals.loader"

/-- The name under which the log shows what the grammar does. -/
def grammarName : String := "annals.scribe"

namespace Invocation

/-- The seeds of the source of chance that belongs to the run. -/
def seeds (i : Invocation) : List (Option Int) := i.seed.toList

/-- A message in the log, under the name of the part of the program that it comes from. -/
def logged (i : Invocation) (source message : String) : List String :=
  if i.verbose then [source ++ ": " ++ message] else []

/-- The warning that the limit of nesting is lowered, which is shown in any case. -/
def warnings (i : Invocation) (asked : Int) : List String :=
  let message := Grammar.loweredMessage asked
  if !Grammar.isLowered asked then []
  else if i.verbose then i.logged grammarName message
  else [message]

/-- The message that so many cognates were read from a path. -/
def loadedLog (i : Invocation) (count : Nat) (path : Path) : List String :=
  i.logged readerName s!"loaded {count} cognates from {path.toString}"

/-- The messages for what happened in expansions. -/
def eventLog (i : Invocation) (events : List Event) : List String :=
  (events.filterMap Event.line?).flatMap (i.logged grammarName)

/-- The expansion that is asked for, if one is. -/
def expansion? (i : Invocation) (g : Grammar) : Option (Except Breakdown (Step String)) :=
  match i.expand, i.name with
  | some (some rule), _ => some (.ok (g.expandWith rule))
  | some none, _ => some (.error .templateMissing)
  | none, some name => some (.ok (g.generateWith name))
  | none, none => none

end Invocation

/-- The line of the list for a cognate. -/
def listLine (c : Cognate) : String :=
  s!"{c.name}\t{c.groups.length} groups\t{c.ruleCount} rules"

/-- The lines of the list, in the order of the names by their characters. -/
def listLines (g : Grammar) : List String :=
  (g.names.mergeSort fun a b => !(b < a)).map fun name => listLine (g.cognate name)

/-- Prints expansions up to a number of them. -/
def printSeries (i : Invocation) (context : Context) (step : Step String) (count : Int)
    (log : List String) (chance : Chance) : Report :=
  let series := Series.run step context count.toNat chance
  let messages := log ++ i.eventLog series.events
  match series.failure with
  | none => ⟨0, series.texts, messages, i.seeds⟩
  | some e => ⟨1, series.texts, messages ++ [Report.errorMessage e.message], i.seeds⟩

/-- Does what is asked for with a grammar that has been read. A template is looked at only when
it is to be expanded. -/
def useGrammar (i : Invocation) (context : Context) (g : Grammar) (log : List String)
    (chance : Chance) : Except Breakdown Report :=
  if i.check then .ok ⟨0, [s!"ok: {g.size} cognates"], log, i.seeds⟩
  else if i.list then .ok ⟨0, listLines g, log, i.seeds⟩
  else
    match i.expansion? g, i.count with
    | none, _ => .ok (.ofUsageError .nameMissing i.seeds)
    | some _, none => .error .countMissing
    | some (.ok step), some count => .ok (printSeries i context step count log chance)
    | some (.error e), some count =>
      if count ≤ 0 then .ok ⟨0, [], log, i.seeds⟩ else .error e

/-- The cognates in the file at a path, or why there are none, in words. -/
def readCognates (readFile : Path → Except FileError String) (path : Path) :
    Except Breakdown (Except String (List Cognate)) :=
  if path.toString.toList.contains '\x00' then .error .nullInPath
  else
    match readFile path with
    | .error e => .ok (.error (e.message path))
    | .ok text =>
      match Document.readStored text with
      | .ok cs => .ok (.ok cs)
      | .error (.character e) => .error (.character e)
      | .error e => .ok (.error e.message)

/-- Does what is asked for in a context, with the limit of nesting that is asked for. -/
def runWithin (readFile : Path → Except FileError String) (chance : Chance) (i : Invocation)
    (context : Context) (maxDepth : Int) : Except Breakdown Report :=
  let path := Path.ofString i.grammar
  match readCognates readFile path with
  | .error e => .error e
  | .ok (.error text) =>
    .ok ⟨1, [], i.warnings maxDepth ++ [Report.errorMessage text], i.seeds⟩
  | .ok (.ok cs) =>
    let log := i.warnings maxDepth ++ i.loadedLog cs.length path
    useGrammar i context (Grammar.ofCognates cs maxDepth) log chance

/-- Does what is asked for. -/
def runInvocation (readFile : Path → Except FileError String) (chance : Chance)
    (i : Invocation) : Except Breakdown Report :=
  match i.context, i.maxDepth with
  | .error e, _ => .ok (.ofUsageError e [])
  | .ok _, none => .error .maxDepthMissing
  | .ok context, some maxDepth => runWithin readFile chance i context maxDepth

/-- Does what arguments ask for. -/
def run (readFile : Path → Except FileError String) (chance : Chance) (arguments : List String) :
    Except Breakdown Report :=
  match Invocation.ofArguments arguments with
  | .error .help => .ok .ofHelp
  | .error (.usage e) => .ok (.ofUsageError e [])
  | .ok i => runInvocation readFile chance i

end TaggedGrammar.CommandLine
