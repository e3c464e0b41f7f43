import TaggedGrammar.Yaml.Cursor

/-!
# Plain scalars with a meaning

A reader of documents may take a plain scalar for something else than text: a truth value, a
number, the absent value, a point in time, or one of two marks of mappings. A text that looks
like one of these is therefore written with quotes. This module recognises them.

## Implementation notes

A pattern is a function that takes its part from the front of the characters, if it is there,
and answers with the rest. A whole text has the pattern if nothing is left.
-/

namespace TaggedGrammar.Yaml

/-- A pattern at the front of some characters. -/
abbrev Pattern := List Char → Option (List Char)

namespace Pattern

/-- One character of a class. -/
def one (p : Char → Bool) : Pattern
  | c :: cs => if p c then some cs else none
  | [] => none

/-- Any number of characters of a class. -/
def many (p : Char → Bool) : Pattern := fun cs => some (cs.dropWhile p)

/-- One pattern after the other. -/
def seq (a b : Pattern) : Pattern := fun cs => (a cs).bind b

/-- The first of two patterns that is there. -/
def orElse (a b : Pattern) : Pattern := fun cs => (a cs).orElse fun _ => b cs

/-- A pattern that may be missing. -/
def optional (a : Pattern) : Pattern := fun cs => some ((a cs).getD cs)

/-- A given character. -/
def char (c : Char) : Pattern := one (· == c)

/-- One or more characters of a class. -/
def some1 (p : Char → Bool) : Pattern := seq (one p) (many p)

/-- Patterns one after the other. -/
def all (ps : List Pattern) : Pattern := fun cs => ps.foldl (fun rest p => rest.bind p) (some cs)

/-- Whether the characters as a whole have a pattern. -/
def matchesAll (a : Pattern) (cs : List Char) : Bool :=
  match a cs with
  | some [] => true
  | _ => false

/-- An optional sign. -/
def sign : Pattern := optional (one fun c => c == '-' || c == '+')

/-- An ASCII digit. -/
def digit : Pattern := one Char.isDigit

/-- One or two ASCII digits. -/
def oneOrTwoDigits : Pattern := seq digit (optional digit)

end Pattern

open Pattern

/-- Whether a digit or an underscore. -/
def isDigitOrLine (c : Char) : Bool := c.isDigit || c == '_'

/-- A colon and a number below sixty of one or two digits. -/
def sixtieth : Pattern :=
  seq (char ':') <|
    orElse (seq (one fun c => '0' ≤ c && c ≤ '5') digit) digit

/-- As many colons with numbers below sixty as there are. -/
def sixtieths (cs : List Char) : List Char :=
  match sixtieth cs with
  | some rest => if _h : rest.length < cs.length then sixtieths rest else cs
  | none => cs
termination_by cs.length

/-- One or more colons with numbers below sixty. -/
def manySixtieths : Pattern := fun cs => (sixtieth cs).map sixtieths

/-- The words for truth values. -/
def truthWords : List String :=
  ["yes", "Yes", "YES", "no", "No", "NO", "true", "True", "TRUE", "false", "False", "FALSE",
    "on", "On", "ON", "off", "Off", "OFF"]

/-- The words for the absent value. -/
def absentWords : List String := ["", "~", "null", "Null", "NULL"]

/-- The marks that mean something in a mapping. -/
def mappingMarks : List String := ["<<", "="]

/-- Whole numbers: binary, octal, decimal, hexadecimal, and in base sixty. -/
def wholePatterns : List Pattern :=
  [all [sign, char '0', char 'b', some1 fun c => c == '0' || c == '1' || c == '_'],
    all [sign, char '0', some1 fun c => ('0' ≤ c && c ≤ '7') || c == '_'],
    all [sign, char '0'],
    all [sign, one fun c => '1' ≤ c && c ≤ '9', many isDigitOrLine],
    all [sign, char '0', char 'x', some1 fun c => c.isDigit || ('a' ≤ c && c ≤ 'f') ||
      ('A' ≤ c && c ≤ 'F') || c == '_'],
    all [sign, one fun c => '1' ≤ c && c ≤ '9', many isDigitOrLine, manySixtieths]]

/-- An exponent, which has a sign. -/
def exponent : Pattern :=
  all [one fun c => c == 'e' || c == 'E', one fun c => c == '-' || c == '+', some1 Char.isDigit]

/-- One of some words. -/
def oneOfWords (words : List String) : Pattern := fun cs =>
  (words.find? fun w => w.toList.isPrefixOf cs).map fun w => cs.drop w.length

/-- Numbers with a point, in base ten and sixty, the infinite ones and what is no number. -/
def pointPatterns : List Pattern :=
  [all [sign, digit, many isDigitOrLine, char '.', many isDigitOrLine, optional exponent],
    all [char '.', digit, many isDigitOrLine, optional exponent],
    all [sign, digit, many isDigitOrLine, manySixtieths, char '.', many isDigitOrLine],
    all [sign, char '.', oneOfWords ["inf", "Inf", "INF"]],
    all [char '.', oneOfWords ["nan", "NaN", "NAN"]]]

/-- A time zone: the letter Z, or a sign and hours with optional minutes. -/
def zone : Pattern :=
  orElse (char 'Z') <|
    all [one fun c => c == '-' || c == '+', oneOrTwoDigits, optional (all [char ':', digit, digit])]

/-- Points in time: a date, or a date with a time of day and an optional zone. -/
def timePatterns : List Pattern :=
  [all [digit, digit, digit, digit, char '-', digit, digit, char '-', digit, digit],
    all [digit, digit, digit, digit, char '-', oneOrTwoDigits, char '-', oneOrTwoDigits,
      orElse (one fun c => c == 'T' || c == 't') (some1 isWhite), oneOrTwoDigits, char ':',
      digit, digit, char ':', digit, digit, optional (all [char '.', many Char.isDigit]),
      optional (all [many isWhite, zone])]]

/-- Whether a reader may take a plain scalar for something else than its text. -/
def hasMeaning (cs : List Char) : Bool :=
  let s := String.ofList cs
  truthWords.contains s || absentWords.contains s || mappingMarks.contains s ||
    (wholePatterns ++ pointPatterns ++ timePatterns).any fun p => p.matchesAll cs

end TaggedGrammar.Yaml
