import TaggedGrammar.Yaml.Fault

/-!
# Tokens of a document text

Brackets of collections, written or implied by the indentation, marks inside collections,
properties of nodes, scalars, and the marks and directives around a document. Where no token can
be read, a fault stands in its place.
-/

namespace TaggedGrammar.Yaml

/-- The form of a collection. A loose sequence is one in a mapping that is not indented, so
that nothing in the text marks where it begins and ends. -/
inductive Form where
  | blockSequence
  | blockMapping
  | flowSequence
  | flowMapping
  | looseSequence
deriving DecidableEq, Repr

/-- A mark inside a collection. -/
inductive Mark where
  | entry
  | comma
  | key
  | value
deriving DecidableEq, Repr

/-- A line of instructions before a document. -/
inductive Directive where
  /-- The first number of the version that the document asks for. -/
  | version (major : Nat)
  /-- A handle for tags. -/
  | handle (name : String)
  | other
deriving DecidableEq, Repr

/-- A token of a document text. -/
inductive Token where
  | directive (d : Directive)
  | documentStart
  | documentEnd
  | opening (form : Form)
  /-- The end of the innermost collection in block form. -/
  | blockEnd
  /-- The end of the innermost collection, which has the given form in brackets. -/
  | closing (form : Form)
  | mark (m : Mark)
  | alias (name : String)
  | anchor (name : String)
  /-- A tag, of which only the handle matters, if it has one. -/
  | tag (handle : Option String)
  | scalar (text : String)
  /-- The place behind which nothing can be read. -/
  | fault (e : Fault)
deriving DecidableEq, Repr

end TaggedGrammar.Yaml
