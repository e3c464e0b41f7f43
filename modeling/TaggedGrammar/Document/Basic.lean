import TaggedGrammar.Document.Cognate
import TaggedGrammar.Grammar.Basic
import TaggedGrammar.Text.Lines
import TaggedGrammar.Yaml.Tree
import TaggedGrammar.Yaml.Written

/-!
# Documents

A document is a text that describes cognates: a list of them, a mapping whose key "cognates"
holds them, or a single one. `Document.read` reads a document and `Document.write` writes one
in the form of a list.

## Implementation notes

The text of a file comes to the reader with unified ends of lines, so `readStored` is the reader
for what was written to a file.
-/

namespace TaggedGrammar

namespace Document

/-- The data of the cognates in a document. -/
def entries : Datum → Except FormatError (List Datum)
  | .null => .ok []
  | .list ds => .ok ds
  | .mapping es =>
    match es.lookup "cognates" with
    | some (.mapping cognates) => .ok (cognates.map Prod.snd)
    | some (.list cognates) => .ok cognates
    | some _ => .error .cognatesNotCollection
    | none => .ok [.mapping es]
  | d => .error (.notCollection d.kind)

/-- The cognates that the data of a document describe. -/
def ofDatum (d : Datum) : Except DocumentError (List Cognate) :=
  match entries d with
  | .ok ds => Cognate.listOfData ds
  | .error e => .error (.format e)

/-- The cognates that a text describes. -/
def read (text : String) : Except DocumentError (List Cognate) :=
  match Yaml.datum text with
  | .ok d => ofDatum d
  | .error e => .error (.ofFault e)

/-- The cognates that the text in a file describes. -/
def readStored (text : String) : Except DocumentError (List Cognate) :=
  read (String.ofList (Text.unifyLines text.toList))

/-- The text that describes cognates. -/
def write (cs : List Cognate) : String := Yaml.writeList (cs.map Cognate.toDatum)

end Document

/-- Inserts the cognates that a text describes. Nothing is inserted if one of them cannot be
read. -/
def Grammar.load (g : Grammar) (text : String) : Except DocumentError Grammar :=
  (Document.read text).map g.insertMany

end TaggedGrammar
