/-!
# Characters and positions of a document text

The classes of characters that the document format knows, and a cursor: the characters that
are still to be read with their place in the text. A line ends at a line feed, a carriage
return, both in a row, U+0085, U+2028 or U+2029. The byte order mark takes no column.
-/

namespace TaggedGrammar.Yaml

/-- Whether a character may stand in a document text. -/
def isAllowed (c : Char) : Bool :=
  let n := c.toNat
  c == '\t' || c == '\n' || c == '\r' || (0x20 ≤ n && n ≤ 0x7E) || n == 0x85 ||
    (0xA0 ≤ n && n ≤ 0xD7FF) || (0xE000 ≤ n && n ≤ 0xFFFD) || 0x10000 ≤ n

/-- The byte order mark. -/
def byteOrderMark : Char := '\uFEFF'

/-- Whether a character ends a line. -/
def isBreak (c : Char) : Bool :=
  c == '\n' || c == '\r' || c == '\u0085' || c == '\u2028' || c == '\u2029'

/-- Whether a character is a space or a tab. -/
def isWhite (c : Char) : Bool := c == ' ' || c == '\t'

/-- Whether a character is a space, a tab or the end of a line. -/
def isGap (c : Char) : Bool := isWhite c || isBreak c

/-- Whether the text ends or goes on with a space, a tab or the end of a line. -/
def atGap : List Char → Bool
  | [] => true
  | c :: _ => isGap c

/-- Whether the text ends or goes on with the end of a line. -/
def atLineEnd : List Char → Bool
  | [] => true
  | c :: _ => isBreak c

/-- Whether the text ends or goes on with a space or the end of a line. -/
def atSpaceOrLineEnd : List Char → Bool
  | [] => true
  | c :: _ => c == ' ' || isBreak c

/-- Whether a letter, a digit, a hyphen or an underscore of ASCII. -/
def isTagChar (c : Char) : Bool := c.isAlphanum || c == '-' || c == '_'

/-- Whether a text goes on with three hyphens or three dots and then a gap, which at the
beginning of a line begins or ends a document. -/
def atDocumentMark : List Char → Bool
  | '-' :: '-' :: '-' :: cs => atGap cs
  | '.' :: '.' :: '.' :: cs => atGap cs
  | _ => false

/-- The characters still to be read, with the number of characters and of lines before them
and the column in their line. -/
structure Cursor where
  rest : List Char
  index : Nat
  line : Nat
  column : Nat
deriving DecidableEq, Repr

namespace Cursor

/-- The cursor at the beginning of a text. -/
def ofChars (cs : List Char) : Cursor := ⟨cs, 0, 0, 0⟩

/-- Goes on by a number of characters that end no line. -/
def skip (c : Cursor) (n : Nat) : Cursor :=
  { c with
    rest := c.rest.drop n
    index := c.index + n
    column := c.column + (c.rest.take n).countP (· != byteOrderMark) }

/-- Goes on by all characters that satisfy a condition which no end of a line satisfies. -/
def skipWhile (c : Cursor) (p : Char → Bool) : Cursor := c.skip (c.rest.takeWhile p).length

/-- Passes over spaces. -/
def skipSpaces (c : Cursor) : Cursor := c.skipWhile (· == ' ')

/-- Goes to the end of the line. -/
def skipLine (c : Cursor) : Cursor := c.skipWhile fun ch => !isBreak ch

/-- Passes over a comment, if one begins here. -/
def skipComment (c : Cursor) : Cursor :=
  match c.rest with
  | '#' :: _ => c.skipLine
  | _ => c

/-- The cursor behind the end of a line that took `width` characters, followed by `rest`. -/
def newLine (c : Cursor) (rest : List Char) (width : Nat) : Cursor :=
  ⟨rest, c.index + width, c.line + 1, 0⟩

/-- The end of a line, if one is here, with the cursor behind it. Only U+2028 and U+2029 are
read as themselves; every other end of a line is read as a line feed. -/
def lineBreak? (c : Cursor) : Option (Char × Cursor) :=
  match c.rest with
  | '\r' :: '\n' :: cs => some ('\n', c.newLine cs 2)
  | ch :: cs =>
    if ch == '\n' || ch == '\r' || ch == '\u0085' then some ('\n', c.newLine cs 1)
    else if ch == '\u2028' || ch == '\u2029' then some (ch, c.newLine cs 1)
    else none
  | [] => none

theorem length_skip_le (c : Cursor) (n : Nat) : (c.skip n).rest.length ≤ c.rest.length := by
  simp only [skip, List.length_drop]
  omega

theorem length_skipWhile_le (c : Cursor) (p : Char → Bool) :
    (c.skipWhile p).rest.length ≤ c.rest.length := length_skip_le c _

theorem length_lt_of_lineBreak? {c d : Cursor} {ch : Char} (h : c.lineBreak? = some (ch, d)) :
    d.rest.length < c.rest.length := by
  unfold lineBreak? at h
  split at h
  · next cs hr =>
    cases h
    simp only [newLine, hr, List.length_cons]
    omega
  · next e cs _ hr =>
    split at h
    · cases h; simp [newLine, hr]
    · split at h
      · cases h; simp [newLine, hr]
      · cases h
  · cases h

end Cursor

end TaggedGrammar.Yaml
