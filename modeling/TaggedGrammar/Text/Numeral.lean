import TaggedGrammar.Text.Blank
import TaggedGrammar.Text.DecimalDigit
import TaggedGrammar.Text.Quoted

/-!
# Numerals

A numeral is an optional sign and one or more decimal digits of any script, where a single
underscore may stand between two digits. Blanks around it are passed over, the information
separators apart.
-/

namespace TaggedGrammar.Text

/-- Whether a character may surround a numeral: a blank that is no information separator. -/
def isNumeralBlank (c : Char) : Bool :=
  isBlank c && !(28 ≤ c.toNat && c.toNat ≤ 31)

/-- The value of the digits behind a value already read, where `afterDigit` tells whether the
character before was a digit. -/
def digitsFrom (afterDigit : Bool) (value : Nat) : List Char → Option Nat
  | [] => if afterDigit then some value else none
  | c :: cs =>
    match digitValue? c with
    | some d => digitsFrom true (10 * value + d) cs
    | none => if c == '_' && afterDigit then digitsFrom false value cs else none

/-- The value of one or more digits with single underscores between them. -/
def natural? (cs : List Char) : Option Nat := digitsFrom false 0 cs

/-- The value of an optional sign and digits. -/
def signed? : List Char → Option Int
  | '-' :: cs => (natural? cs).map fun n => -(n : Int)
  | '+' :: cs => (natural? cs).map Int.ofNat
  | cs => (natural? cs).map Int.ofNat

/-- The number that a text writes, blanks around it passed over. -/
def integer? (s : String) : Option Int :=
  let cs := s.toList.dropWhile isNumeralBlank
  signed? (cs.reverse.dropWhile isNumeralBlank).reverse

/-- A text that writes no number where one is needed. -/
structure NotANumeral where
  text : String
deriving DecidableEq, Repr

/-- The error in words. -/
def NotANumeral.message (e : NotANumeral) : String :=
  s!"invalid literal for int() with base 10: {quoted e.text}"

/-- The number that a text writes, or the text as an error. -/
def readInteger (s : String) : Except NotANumeral Int :=
  match integer? s with
  | some n => .ok n
  | none => .error ⟨s⟩

end TaggedGrammar.Text
