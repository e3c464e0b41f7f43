import TaggedGrammar.Yaml.Scalar.Meaning

/-!
# The style of a scalar

A text is written plain if that reads back as the same text, else between single quotes if
those can hold it, else between double quotes. Keys that stand on the line of their colon may
not hold line ends.
-/

namespace TaggedGrammar.Yaml

/-- How a scalar is written. -/
inductive Style where
  | plain
  | single
  | double
deriving DecidableEq, Repr

/-- Whether a character ends a line within a text. A carriage return does not. -/
def isTextBreak (c : Char) : Bool :=
  c == '\n' || c == '\u0085' || c == '\u2028' || c == '\u2029'

/-- Whether a character can only be written as an escape. -/
def needsEscape (c : Char) : Bool :=
  let n := c.toNat
  !(c == '\n' || (0x20 ≤ n && n ≤ 0x7E) ||
    ((n == 0x85 || (0xA0 ≤ n && n ≤ 0xD7FF) || (0xE000 ≤ n && n ≤ 0xFFFD) ||
      (0x10000 ≤ n && n < 0x10FFFF)) && c != byteOrderMark))

/-- Whether somewhere a character of one class stands before one of another. -/
def hasPair (p q : Char → Bool) : List Char → Bool
  | [] => false
  | [_] => false
  | c :: d :: cs => (p c && q d) || hasPair p q (d :: cs)

/-- Whether a text begins with a mark that begins or ends a document. -/
def startsLikeMark (cs : List Char) : Bool :=
  "---".toList.isPrefixOf cs || "...".toList.isPrefixOf cs

/-- Whether the first character of a text means something there. -/
def startsWithIndicator : List Char → Bool
  | [] => false
  | c :: cs =>
    "#,[]\x7b\x7d&*!|>'\"%@\x60".toList.contains c ||
      ((c == '?' || c == ':' || c == '-') && atGap cs)

/-- Whether a character after the first means something: a colon before a gap, or the sign of
a comment behind one. -/
def hasInnerIndicator : List Char → Bool
  | [] => false
  | c :: cs =>
    match cs with
    | [] => false
    | d :: ds => (d == ':' && atGap ds) || (d == '#' && isGap c) || hasInnerIndicator cs

/-- Whether a text has a space or a line end at one of its ends. -/
def hasOuterGap (cs : List Char) : Bool :=
  let isEdge := fun c => c == ' ' || isTextBreak c
  cs.head?.any isEdge || cs.getLast?.any isEdge

/-- Whether a text can be written plain on one line. -/
def allowsPlain (cs : List Char) : Bool :=
  !cs.any isTextBreak && !cs.any needsEscape && !hasOuterGap cs && !startsLikeMark cs &&
    !startsWithIndicator cs && !hasInnerIndicator cs

/-- Whether a text can be written between single quotes: it needs no escapes, and no space
stands beside a line end. -/
def allowsSingle (cs : List Char) : Bool :=
  !cs.any needsEscape && !hasPair (· == ' ') isTextBreak cs && !hasPair isTextBreak (· == ' ') cs

/-- The style in which a text is written, as a key on the line of its colon where `isKey`
holds. -/
def styleOf (isKey : Bool) (cs : List Char) : Style :=
  if !hasMeaning cs && allowsPlain cs then .plain
  else if allowsSingle cs && !(isKey && cs.any isTextBreak) then .single
  else .double

end TaggedGrammar.Yaml
