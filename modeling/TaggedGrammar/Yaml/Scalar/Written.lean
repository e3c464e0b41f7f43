import TaggedGrammar.Yaml.Scalar.Style

/-!
# Written scalars

The characters that write a text in each style. Beyond column 80 a line is broken at a single
space, or between double quotes at any space and behind an escape, with a backslash before the
break; the text goes on at the column of its indentation. Keys are not broken.

## Implementation notes

`column` is the column at which the next character is written, and `indent` the number of
spaces at the beginning of every further line.
-/

namespace TaggedGrammar.Yaml

/-- The column beyond which lines are broken. -/
def lineWidth : Nat := 80

/-- A number of spaces. -/
def spaces (n : Nat) : List Char := List.replicate n ' '

/-- A line break and the spaces of the next line. -/
def fold (indent : Nat) : List Char := '\n' :: spaces indent

/-- Writes a text plain. `previous` is the character before. -/
def writePlain (folds : Bool) (indent : Nat) (previous : Option Char) (column : Nat) :
    List Char → List Char
  | [] => []
  | c :: cs =>
    if folds && c == ' ' && previous != some ' ' && cs.head? != some ' ' && lineWidth < column then
      fold indent ++ writePlain folds indent (some c) indent cs
    else c :: writePlain folds indent (some c) (column + 1) cs

/-- Writes a text that stands between single quotes. The quote is written twice, and so is the
line feed with which a run of line ends begins. -/
def writeSingle (folds : Bool) (indent : Nat) (previous : Option Char) (column : Nat) :
    List Char → List Char
  | [] => []
  | c :: cs =>
    if c == '\'' then '\'' :: '\'' :: writeSingle folds indent (some c) (column + 2) cs
    else if isTextBreak c then
      let opening := if c == '\n' && !previous.any isTextBreak then ['\n'] else []
      let closing := if cs.head?.any isTextBreak then [] else spaces indent
      opening ++ c :: closing ++ writeSingle folds indent (some c) indent cs
    else if folds && c == ' ' && previous.isSome && previous != some ' ' && !cs.isEmpty &&
        cs.head? != some ' ' && lineWidth < column then
      fold indent ++ writeSingle folds indent (some c) indent cs
    else c :: writeSingle folds indent (some c) (column + 1) cs

/-- The letters of escapes between double quotes and what they stand for. -/
def writtenEscapes : List (Char × Char) :=
  [('\x00', '0'), ('\x07', 'a'), ('\x08', 'b'), ('\t', 't'), ('\n', 'n'), ('\x0B', 'v'),
    ('\x0C', 'f'), ('\r', 'r'), ('\x1B', 'e'), ('"', '"'), ('\\', '\\'), ('\u0085', 'N'),
    ('\u00A0', '_'), ('\u2028', 'L'), ('\u2029', 'P')]

/-- Whether a character stands for itself between double quotes. -/
def isPlainInDouble (c : Char) : Bool :=
  let n := c.toNat
  ((0x20 ≤ n && n ≤ 0x7E) || (0xA0 ≤ n && n ≤ 0xD7FF) || (0xE000 ≤ n && n ≤ 0xFFFD)) &&
    c != '"' && c != '\\' && c != '\u2028' && c != '\u2029' && c != byteOrderMark

/-- The hexadecimal digit, in upper case, of a value below sixteen. -/
def upperHexDigit (n : Nat) : Char :=
  if n < 10 then Char.ofNat (48 + n) else Char.ofNat (55 + n)

/-- The last `width` hexadecimal digits of a number, in upper case. -/
def upperHexDigits : Nat → Nat → List Char
  | 0, _ => []
  | width + 1, n => upperHexDigits width (n / 16) ++ [upperHexDigit (n % 16)]

/-- The escape that writes a character. -/
def writeEscape (c : Char) : List Char :=
  match writtenEscapes.lookup c with
  | some e => ['\\', e]
  | none =>
    let n := c.toNat
    if n ≤ 0xFF then '\\' :: 'x' :: upperHexDigits 2 n
    else if n ≤ 0xFFFF then '\\' :: 'u' :: upperHexDigits 4 n
    else '\\' :: 'U' :: upperHexDigits 8 n

/-- A backslash at the end of a line, the break, and a backslash before a space with which the
next line begins. -/
def foldDouble (indent : Nat) (next : List Char) : List Char :=
  '\\' :: fold indent ++ if next.head? == some ' ' then ['\\'] else []

/-- The column behind a break between double quotes. -/
def columnAfterFold (indent : Nat) (next : List Char) : Nat :=
  if next.head? == some ' ' then indent + 1 else indent

/-- Writes a text that stands between double quotes. `isFirst` tells whether nothing has been
written, and `afterEscape` whether an escape has just been. -/
def writeDouble (folds : Bool) (indent : Nat) (isFirst afterEscape : Bool) (column : Nat) :
    List Char → List Char
  | [] => []
  | c :: cs =>
    let mayFold := folds && !isFirst && !cs.isEmpty
    if isPlainInDouble c then
      if mayFold && (c == ' ' || afterEscape) && lineWidth < column then
        foldDouble indent (c :: cs) ++
          c :: writeDouble folds indent false false (columnAfterFold indent (c :: cs) + 1) cs
      else c :: writeDouble folds indent false false (column + 1) cs
    else
      let e := writeEscape c
      if mayFold && lineWidth + 1 < column + e.length then
        e ++ foldDouble indent cs ++
          writeDouble folds indent false true (columnAfterFold indent cs) cs
      else e ++ writeDouble folds indent false true (column + e.length) cs

/-- Writes a text in a style, beginning at a column. -/
def writeScalar (style : Style) (folds : Bool) (indent column : Nat) (cs : List Char) :
    List Char :=
  match style with
  | .plain => writePlain folds indent none column cs
  | .single => '\'' :: writeSingle folds indent none (column + 1) cs ++ ['\'']
  | .double => '"' :: writeDouble folds indent true false (column + 1) cs ++ ['"']

end TaggedGrammar.Yaml
