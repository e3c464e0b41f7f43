import TaggedGrammar.Document.Datum
import TaggedGrammar.Yaml.Scalar.Written

/-!
# Written documents

A document is written in block form: an item behind a hyphen, an entry as its key, a colon and
its value, and every collection two columns further in than the one around it. Only the list
in an entry is not indented, and empty collections are written in brackets. A key that is
empty, long or holds line ends stands behind a question mark, and its value on a line of its
own.

## Implementation notes

`writeInline` writes a value behind a hyphen, a question mark or the colon of a long key, where
a collection begins on the same line; `writeValue` writes one behind a key and its colon, where
a collection begins on the next. Both take the items or entries of a collection, each written
on its own, and put them together.
-/

namespace TaggedGrammar.Yaml

/-- The number of columns by which a collection is indented. -/
def indentStep : Nat := 2

/-- The number of characters from which a key is too long for the line of its colon. -/
def longKey : Nat := 123

/-- Whether a key stands on the line of its colon. -/
def isSimpleKey (cs : List Char) : Bool :=
  !cs.isEmpty && !cs.any isTextBreak && cs.length < longKey

/-- A text that may be folded, at a column. -/
def writeText (indent column : Nat) (s : String) : List Char :=
  let cs := s.toList
  writeScalar (styleOf false cs) true indent column cs

/-- A key on the line of its colon. -/
def writeKey (cs : List Char) : List Char := writeScalar (styleOf true cs) false 0 0 cs

/-- The characters of a scalar that is no text. -/
def plainScalarChars : Datum → List Char
  | .null => "null".toList
  | .flag true => "true".toList
  | .flag false => "false".toList
  | .integer n => (toString n).toList
  | _ => []

/-- Parts of a collection that begins on this line, one part a line at column `indent`. -/
def inlineBlock (indent : Nat) (none : String) (parts : List (List Char)) : List Char :=
  if parts.isEmpty then none.toList else (fold indent).intercalate parts

/-- Parts of a collection that begins on the next line, one part a line at column `indent`. -/
def block (indent : Nat) (none : String) (parts : List (List Char)) : List Char :=
  if parts.isEmpty then ' ' :: none.toList else parts.flatMap (fold indent ++ ·)

mutual

/-- A value behind an indicator, for a collection whose items begin at column `indent`. -/
def writeInline (indent : Nat) : Datum → List Char
  | .text s => ' ' :: writeText indent indent s
  | .list ds => ' ' :: inlineBlock indent "[]" (writeItems indent ds)
  | .mapping es => ' ' :: inlineBlock indent "\x7b\x7d" (writeEntries indent es)
  | d => ' ' :: plainScalarChars d

/-- A value behind a key of the given written length and its colon, in a mapping whose entries
begin at column `indent`. -/
def writeValue (indent keyLength : Nat) : Datum → List Char
  | .text s => ' ' :: writeText (indent + indentStep) (indent + keyLength + 2) s
  | .list ds => block indent "[]" (writeItems indent ds)
  | .mapping es =>
    block (indent + indentStep) "\x7b\x7d" (writeEntries (indent + indentStep) es)
  | d => ' ' :: plainScalarChars d

/-- Items of a list at column `indent`. -/
def writeItems (indent : Nat) : List Datum → List (List Char)
  | [] => []
  | d :: ds => ('-' :: writeInline (indent + indentStep) d) :: writeItems indent ds

/-- Entries of a mapping at column `indent`. -/
def writeEntries (indent : Nat) : List (String × Datum) → List (List Char)
  | [] => []
  | (k, d) :: es =>
    let cs := k.toList
    let entry :=
      if isSimpleKey cs then
        let key := writeKey cs
        key ++ ':' :: writeValue indent key.length d
      else
        let inner := indent + indentStep
        '?' :: ' ' :: writeText inner inner k ++ fold indent ++ ':' :: writeInline inner d
    entry :: writeEntries indent es

end

/-- A list as a document. -/
def writeList (ds : List Datum) : String :=
  String.ofList (inlineBlock 0 "[]" (writeItems 0 ds) ++ ['\n'])

end TaggedGrammar.Yaml
