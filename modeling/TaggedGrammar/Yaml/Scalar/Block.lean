import TaggedGrammar.Yaml.Cursor

/-!
# Block scalars

A block scalar is announced by `|`, which keeps its line ends, or `>`, which folds them into
spaces. A header may tell how deep it is indented and what becomes of the line ends behind its
last line; without one the first line that is not empty sets the depth.
-/

namespace TaggedGrammar.Yaml

/-- What becomes of the line ends behind the last line: one is kept, none, or all. -/
inductive Chomping where
  | clip
  | strip
  | keep
deriving DecidableEq, Repr

/-- What the header of a block scalar says. -/
structure BlockHeader where
  chomping : Chomping
  /-- How much deeper than its surroundings the scalar is indented. -/
  increment : Option Nat
deriving DecidableEq, Repr

/-- The chomping that a character asks for. -/
def chomping? : Char → Option Chomping
  | '+' => some .keep
  | '-' => some .strip
  | _ => none

/-- The increment that a character asks for. -/
def increment? (c : Char) : Option Nat :=
  if '1' ≤ c && c ≤ '9' then some (c.toNat - 48) else none

/-- Reads the header, in which chomping and increment may stand in either order. A gap must
follow it. -/
def blockHeader (c : Cursor) : Option (BlockHeader × Cursor) :=
  let first := c.rest.head?
  let second := (c.rest.drop 1).head?
  let header : BlockHeader × Nat :=
    match first.bind chomping?, first.bind increment? with
    | some chomping, _ =>
      match second.bind increment? with
      | some n => (⟨chomping, some n⟩, 2)
      | none => (⟨chomping, none⟩, 1)
    | none, some n =>
      match second.bind chomping? with
      | some chomping => (⟨chomping, some n⟩, 2)
      | none => (⟨.clip, some n⟩, 1)
    | none, none => (⟨.clip, none⟩, 0)
  let d := c.skip header.2
  if atSpaceOrLineEnd d.rest then some (header.1, d) else none

/-- Goes to the next line, where only spaces and a comment may stand before the end of this
one. -/
def restOfLine (c : Cursor) : Option Cursor :=
  let d := c.skipSpaces.skipComment
  if atLineEnd d.rest then some ((d.lineBreak?.map Prod.snd).getD d) else none

/-- Passes over the spaces that lead to the column `indent`. -/
def skipIndent (indent : Nat) (c : Cursor) : Cursor :=
  c.skip (min (c.rest.takeWhile (· == ' ')).length (indent - c.column))

/-- The line ends of empty lines, with the spaces that lead to the column `indent` passed
over. -/
def blockBreaks (indent : Nat) (c : Cursor) : List Char × Cursor :=
  let d := skipIndent indent c
  match h : d.lineBreak? with
  | none => ([], d)
  | some (b, e) =>
    have := Cursor.length_lt_of_lineBreak? h
    have := Cursor.length_skip_le c
      (min (c.rest.takeWhile (· == ' ')).length (indent - c.column))
    let (more, f) := blockBreaks indent e
    (b :: more, f)
termination_by c.rest.length
decreasing_by simp only [d, skipIndent] at *; omega

/-- The line ends of empty lines before the first line, with the greatest column that spaces
lead to. -/
def leadingBreaks (deepest : Nat) (c : Cursor) : List Char × Nat × Cursor :=
  let d := c.skipSpaces
  let depth := max deepest d.column
  match h : d.lineBreak? with
  | none => ([], depth, d)
  | some (b, e) =>
    have := Cursor.length_lt_of_lineBreak? h
    have := Cursor.length_skipWhile_le c (· == ' ')
    let (more, deeper, f) := leadingBreaks depth e
    (b :: more, deeper, f)
termination_by c.rest.length
decreasing_by simp only [d, Cursor.skipSpaces] at *; omega

/-- The lines of a block scalar: their text, the end of the last line, and the line ends of
the empty lines behind it. -/
structure BlockLines where
  text : List Char
  lineEnd : List Char
  breaks : List Char
  cursor : Cursor

/-- Whether the text goes on with white space. -/
def atWhite : List Char → Bool
  | [] => false
  | c :: _ => isWhite c

/-- Reads the lines of a block scalar that reach the column `indent`. -/
def blockLines (folded : Bool) (indent : Nat) (c : Cursor) : BlockLines :=
  let line := c.rest.takeWhile fun ch => !isBreak ch
  let d := c.skipLine
  let (lineEnd, e) := match d.lineBreak? with
    | some (b, e) => ([b], e)
    | none => ([], d)
  let (breaks, f) := blockBreaks indent e
  if f.column == indent && !f.rest.isEmpty then
    if _h : f.rest.length < c.rest.length then
      let joint :=
        if folded && lineEnd == ['\n'] && !atWhite c.rest && !atWhite f.rest then
          if breaks.isEmpty then [' '] else []
        else lineEnd
      let more := blockLines folded indent f
      { more with text := line ++ joint ++ breaks ++ more.text }
    else ⟨line, lineEnd, breaks, f⟩
  else ⟨line, lineEnd, breaks, f⟩
termination_by c.rest.length

/-- Reads a block scalar behind its indicator. `least` is the column that its lines must
reach. -/
def blockScalar (folded : Bool) (least : Nat) (c : Cursor) : Option (List Char × Cursor) := do
  let (header, d) ← blockHeader c
  let e ← restOfLine d
  let (breaks, indent, f) := match header.increment with
    | none =>
      let (breaks, deepest, f) := leadingBreaks 0 e
      (breaks, max least deepest, f)
    | some n =>
      let indent := least + n - 1
      let (breaks, f) := blockBreaks indent e
      (breaks, indent, f)
  let lines :=
    if f.column == indent && !f.rest.isEmpty then
      let lines := blockLines folded indent f
      { lines with text := breaks ++ lines.text }
    else ⟨[], [], breaks, f⟩
  let tail := match header.chomping with
    | .strip => []
    | .clip => lines.lineEnd
    | .keep => lines.lineEnd ++ lines.breaks
  return (lines.text ++ tail, lines.cursor)

end TaggedGrammar.Yaml
