/-!
# Options of the command line

Every option has one or two spellings, which begin with two hyphens or with one, and some take
a value.
-/

namespace TaggedGrammar.CommandLine

/-- An option. -/
inductive Flag where
  | help
  | count
  | seed
  | tag
  | bind
  | expand
  | list
  | check
  | maxDepth
  | verbose
deriving DecidableEq, Repr

namespace Flag

/-- All options in order. -/
def all : List Flag := [help, count, seed, tag, bind, expand, list, check, maxDepth, verbose]

/-- The spellings of an option. -/
def spellings : Flag → List String
  | help => ["-h", "--help"]
  | count => ["--count", "-n"]
  | seed => ["--seed"]
  | tag => ["--tag", "-t"]
  | bind => ["--bind", "-b"]
  | expand => ["--expand", "-e"]
  | list => ["--list", "-l"]
  | check => ["--check"]
  | maxDepth => ["--max-depth"]
  | verbose => ["--verbose", "-v"]

/-- Whether an option takes a value. -/
def takesValue : Flag → Bool
  | help => false
  | list => false
  | check => false
  | verbose => false
  | _ => true

/-- The option as messages name it. -/
def title (f : Flag) : String := "/".intercalate f.spellings

/-- Every spelling with its option, in order. -/
def table : List (String × Flag) := all.flatMap fun f => f.spellings.map fun s => (s, f)

/-- The option of a spelling. -/
def ofSpelling? (s : String) : Option Flag := table.lookup s

/-- The option of a hyphen and a letter. -/
def ofLetter? (c : Char) : Option Flag := ofSpelling? (String.ofList ['-', c])

/-- The spellings that begin with a text, with their options. -/
def completions (s : String) : List (String × Flag) :=
  table.filter fun e => s.toList.isPrefixOf e.1.toList

end Flag

end TaggedGrammar.CommandLine
