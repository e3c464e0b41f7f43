import TaggedGrammar.Text.Listing

/-!
# Data of documents

A document is a tree of lists and mappings over texts, integers, truth values and the absent
value. The entries of a mapping keep their order.

## Implementation notes

A mapping is a plain list of pairs, because a tree cannot nest through a type that carries a
proof about its own nodes. Readers of documents put every key at most once.
-/

namespace TaggedGrammar

/-- A value in a document. -/
inductive Datum where
  | null
  | flag (value : Bool)
  | integer (value : Int)
  | text (value : String)
  | list (items : List Datum)
  | mapping (entries : List (String × Datum))

namespace Datum

instance : Inhabited Datum := ⟨null⟩

/-- The name of the kind of a value. -/
def kind : Datum → String
  | null => "NoneType"
  | flag _ => "bool"
  | integer _ => "int"
  | text _ => "str"
  | list _ => "list"
  | mapping _ => "dict"

/-- Whether the value is a list or a mapping. -/
def isCollection : Datum → Bool
  | list _ => true
  | mapping _ => true
  | _ => false

/-- Whether the value counts as missing: absent, false, zero or empty. -/
def isBare : Datum → Bool
  | null => true
  | flag value => !value
  | integer value => value == 0
  | text value => value.isEmpty
  | list items => items.isEmpty
  | mapping entries => entries.isEmpty

/-- The value of a key in a mapping. -/
def get? (key : String) : Datum → Option Datum
  | mapping entries => entries.lookup key
  | _ => none

mutual

/-- A value as it is shown inside a collection: texts quoted, collections in brackets. -/
def shown : Datum → String
  | null => "None"
  | flag true => "True"
  | flag false => "False"
  | integer value => toString value
  | text value => Text.quoted value
  | list items => Text.inBrackets (shownItems items)
  | mapping entries => Text.inBraces (shownEntries entries)

/-- The items of a list as they are shown. -/
def shownItems : List Datum → List String
  | [] => []
  | d :: ds => shown d :: shownItems ds

/-- The entries of a mapping as they are shown. -/
def shownEntries : List (String × Datum) → List String
  | [] => []
  | (key, d) :: es => Text.keyed key (shown d) :: shownEntries es

end

/-- A value as text: a text is itself, and everything else is as it is shown. -/
def asText : Datum → String
  | text value => value
  | d => shown d

end Datum

end TaggedGrammar
