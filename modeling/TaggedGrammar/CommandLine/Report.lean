import TaggedGrammar.CommandLine.Error

/-!
# Reports

What a run answers with: an exit code, what it prints as output and as errors, and the seeds
that it gave to a source of chance of its own.
-/

namespace TaggedGrammar.CommandLine

/-- The answer of a run. Every message ends with a line feed when it is printed. -/
structure Report where
  code : Nat
  output : List String
  messages : List String
  /-- The seeds in order; one may be missing where it should stand. -/
  seeds : List (Option Int)
deriving DecidableEq, Repr

namespace Report

/-- Texts with a line feed behind each. -/
def printed (lines : List String) : String := String.join (lines.map (· ++ "\n"))

/-- What is printed as output. -/
def stdout (r : Report) : String := printed r.output

/-- What is printed as errors. -/
def stderr (r : Report) : String := printed r.messages

/-- The seeds as text. -/
def seedTexts (r : Report) : List String := r.seeds.map fun n => (n.map toString).getD "[]"

/-- The message of an error that ends a run. -/
def errorMessage (text : String) : String := "error: " ++ text

/-- The answer to arguments with which something is wrong. -/
def ofUsageError (e : UsageError) (seeds : List (Option Int)) : Report :=
  ⟨2, [], ["annals: error: " ++ e.message], seeds⟩

/-- The lines that explain the use of the program. -/
def helpLines : List String :=
  ["usage: annals " ++ " ".intercalate (Flag.all.map fun f => "[" ++ f.title ++ "]") ++
    " grammar [name]",
   "",
   "Generate text from a YAML rule grammar."]

/-- The answer to arguments that ask for help. -/
def ofHelp : Report := ⟨0, helpLines, [], []⟩

end Report

end TaggedGrammar.CommandLine
