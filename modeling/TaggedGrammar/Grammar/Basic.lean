import TaggedGrammar.Grammar.Cognate

/-!
# Grammars

A grammar is a table of cognates under their names, with a limit for the nesting of
expansions. A cognate that replaces one of the same name takes its place.

## Implementation notes

Edits of a cognate go through `edit`, which keeps the cognate when the edit fails, and creates
an empty one under a new name even then.
-/

namespace TaggedGrammar

/-- Named cognates and the limit of nesting. -/
structure Grammar where
  cognates : Table Cognate
  maxDepth : Int

namespace Grammar

/-- The greatest limit of nesting. -/
def depthCeiling : Int := 133

/-- The limit of nesting where none is given. -/
def defaultMaxDepth : Int := 100

/-- The limit of nesting that is in force when one is asked for. -/
def effectiveDepth (asked : Int) : Int := min asked depthCeiling

/-- Whether a limit that is asked for is lowered. -/
def isLowered (asked : Int) : Bool := asked > depthCeiling

/-- What is said about a limit that is lowered. -/
def loweredMessage (asked : Int) : String :=
  s!"max_depth {asked} does not fit the interpreter stack, using {depthCeiling}"

/-- The grammar without cognates, with the limit that is asked for. -/
def ofDepth (asked : Int) : Grammar := ⟨∅, effectiveDepth asked⟩

/-- Inserts a cognate under its name. -/
def insert (g : Grammar) (c : Cognate) : Grammar :=
  { g with cognates := g.cognates.insert c.name c }

/-- Inserts cognates one after the other. -/
def insertMany (g : Grammar) (cs : List Cognate) : Grammar := cs.foldl insert g

/-- The grammar of a list of cognates. -/
def ofCognates (cs : List Cognate) (asked : Int) : Grammar := (ofDepth asked).insertMany cs

/-- The cognate of a name. -/
def get? (g : Grammar) (name : String) : Option Cognate := g.cognates.get? name

/-- The names in order. -/
def names (g : Grammar) : List String := g.cognates.keys

/-- The cognates in order. -/
def toList (g : Grammar) : List Cognate := g.cognates.values

/-- The number of cognates. -/
def size (g : Grammar) : Nat := g.cognates.size

/-- Whether there is a cognate of the name. -/
def contains (g : Grammar) (name : String) : Bool := g.cognates.contains name

/-- The cognate of a name, empty where there is none. -/
def cognate (g : Grammar) (name : String) : Cognate :=
  (g.get? name).getD (Cognate.ofName name)

/-- Makes sure that there is a cognate of the name. -/
def create (g : Grammar) (name : String) : Grammar :=
  if g.contains name then g
  else { g with cognates := g.cognates.insert name (Cognate.ofName name) }

/-- Changes the cognate of a name, which is created where there is none, by a function that
may fail. A failure leaves the cognate as it was. -/
def edit (g : Grammar) (name : String) (f : Cognate → Except InvalidRule Cognate) :
    Except InvalidRule Unit × Grammar :=
  let made := g.create name
  match f (made.cognate name) with
  | .ok c => (.ok (), { made with cognates := made.cognates.insert name c })
  | .error e => (.error e, made)

/-- The grammar in a few words. -/
def summary (g : Grammar) : String := s!"Scribe({g.size} cognates)"

end Grammar

end TaggedGrammar
