import TaggedGrammar.Text.Quoted
import TaggedGrammar.Table

/-!
# Listings

A listing shows a table of texts, or a list, with every text quoted and a comma between two
entries.
-/

namespace TaggedGrammar.Text

/-- Entries with commas between them, in braces. -/
def inBraces (entries : List String) : String := "\x7b" ++ ", ".intercalate entries ++ "\x7d"

/-- Entries with commas between them, in square brackets. -/
def inBrackets (entries : List String) : String := "[" ++ ", ".intercalate entries ++ "]"

/-- A key and the text shown for its value. -/
def keyed (key shown : String) : String := quoted key ++ ": " ++ shown

/-- A table of texts in braces. -/
def listing (t : Table String) : String :=
  inBraces (t.entries.map fun e => keyed e.1 (quoted e.2))

end TaggedGrammar.Text
