import TaggedGrammar.Text.Casing

/-!
# Commands of templates

A command transforms the text of the substitution that it stands before. Templates name it by
a keyword, and each command has a short and a long one.
-/

namespace TaggedGrammar

/-- A transformation that a template may ask for. -/
inductive Command where
  | capitalize
  | lowercase
  | titlecase
  | article
deriving DecidableEq, Repr

namespace Command

/-- The name under which tokens carry the command. -/
def name : Command → String
  | capitalize => "capitalize"
  | lowercase => "lowercase"
  | titlecase => "titlecase"
  | article => "article"

/-- The command of a given name. -/
def ofName? (s : String) : Option Command :=
  [capitalize, lowercase, titlecase, article].find? fun c => c.name == s

/-- The keywords of templates and their commands. -/
def keywords : List (String × Command) :=
  [("cap", capitalize), ("capitalize", capitalize), ("low", lowercase), ("lowercase", lowercase),
    ("title", titlecase), ("titlecase", titlecase), ("a", article), ("an", article)]

/-- The command of a keyword. -/
def ofKeyword? (s : String) : Option Command := keywords.lookup s

/-- Transforms the characters of a text. -/
def applyChars : Command → List Char → List Char
  | capitalize => Text.capitalize
  | lowercase => Text.lower
  | titlecase => Text.titlecase
  | article => Text.withArticle

/-- Transforms a text. -/
def apply (c : Command) (s : String) : String := String.ofList (c.applyChars s.toList)

@[simp] theorem ofName?_name (c : Command) : ofName? c.name = some c := by
  cases c <;> decide

/-- Every command leaves the empty text empty. -/
@[simp] theorem apply_empty (c : Command) : c.apply "" = "" := by
  cases c <;> rfl

end Command

end TaggedGrammar
