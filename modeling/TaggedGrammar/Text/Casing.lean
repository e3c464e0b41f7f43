import TaggedGrammar.Text.Blank
import TaggedGrammar.Text.Lowercase

/-!
# Case and article of a text

The transformations that a template may ask for: a capital first letter, lower case, a capital
at the head of every word, and the indefinite article. A word is a longest run of characters
that are no blanks. Each of them leaves the empty text empty.
-/

namespace TaggedGrammar.Text

/-- Puts the first character into upper case and leaves the rest. -/
def capitalize : List Char → List Char
  | [] => []
  | c :: cs => upperChar c ++ cs

/-- Puts the head of every word into upper case, where `atHead` tells whether the next
character that is no blank begins a word. -/
def titlecaseFrom (atHead : Bool) : List Char → List Char
  | [] => []
  | c :: cs =>
    if isBlank c then c :: titlecaseFrom true cs
    else if atHead then upperChar c ++ titlecaseFrom false cs
    else c :: titlecaseFrom false cs

/-- Puts the head of every word into upper case. -/
def titlecase (cs : List Char) : List Char := titlecaseFrom true cs

/-- Whether a character is one of the five vowel letters, in either case. -/
def isVowel (c : Char) : Bool := ['a', 'e', 'i', 'o', 'u', 'A', 'E', 'I', 'O', 'U'].contains c

/-- Puts "an" before a text that begins with a vowel letter and "a" before any other. -/
def withArticle : List Char → List Char
  | [] => []
  | c :: cs => (if isVowel c then ['a', 'n', ' '] else ['a', ' ']) ++ c :: cs

@[simp] theorem capitalize_nil : capitalize [] = [] := rfl

@[simp] theorem titlecase_nil : titlecase [] = [] := rfl

@[simp] theorem withArticle_nil : withArticle [] = [] := rfl

end TaggedGrammar.Text
