import TaggedGrammar.Yaml.Cursor

/-!
# Plain scalars

A plain scalar has no quotes. It ends at a comment, at a colon before a gap, and inside
brackets at the characters that have a meaning there. Over the end of a line it goes on where
the next line is indented enough; the end of the line is then read as a space, or as the line
ends that follow it.
-/

namespace TaggedGrammar.Yaml

/-- Whether a character separates or closes collections in brackets. -/
def isFlowIndicator (c : Char) : Bool :=
  c == ',' || c == '[' || c == ']' || c == '\x7b' || c == '\x7d'

/-- Whether the text goes on with a character that separates or closes collections. -/
def atFlowIndicator : List Char → Bool
  | [] => false
  | c :: _ => isFlowIndicator c

/-- The number of characters of a plain scalar up to the next gap or its end, inside brackets
where `flow` holds. -/
def plainLength (flow : Bool) : List Char → Nat
  | [] => 0
  | c :: cs =>
    if isGap c || (c == ':' && (atGap cs || (flow && atFlowIndicator cs))) ||
        (flow && (isFlowIndicator c || c == '?')) then 0
    else plainLength flow cs + 1

/-- The line ends after the first one, up to the next character that is neither a space nor a
line end. Nothing is read where a mark begins or ends a document. -/
def plainBreaks (c : Cursor) : Option (List Char) × Cursor :=
  match c.rest with
  | ' ' :: _ =>
    let d := c.skip 1
    if _h : d.rest.length < c.rest.length then plainBreaks d else (some [], c)
  | _ =>
    match h : c.lineBreak? with
    | some (b, d) =>
      have := Cursor.length_lt_of_lineBreak? h
      if atDocumentMark d.rest then (none, d)
      else
        let (more, e) := plainBreaks d
        (more.map (b :: ·), e)
    | none => (some [], c)
termination_by c.rest.length

/-- What lies between two parts of a plain scalar. -/
structure PlainGap where
  /-- The text that the gap is read as, empty where the scalar ends. -/
  text : List Char
  cursor : Cursor
  /-- Whether a line ended in the gap. -/
  brokeLine : Bool

/-- Reads the gap behind a part of a plain scalar. -/
def plainGap (c : Cursor) : PlainGap :=
  let d := c.skipSpaces
  match d.lineBreak? with
  | none => ⟨c.rest.takeWhile (· == ' '), d, false⟩
  | some (b, e) =>
    if atDocumentMark e.rest then ⟨[], e, true⟩
    else
      match plainBreaks e with
      | (none, f) => ⟨[], f, true⟩
      | (some breaks, f) =>
        let first := if b != '\n' then [b] else if breaks.isEmpty then [' '] else []
        ⟨first ++ breaks, f, true⟩

/-- A plain scalar that was read, and whether a line ended behind its last part. -/
structure PlainScalar where
  text : List Char
  cursor : Cursor
  brokeLine : Bool

/-- Whether a comment begins here. -/
def atComment (cs : List Char) : Bool := cs.head? == some '#'

/-- Reads a plain scalar from here on. Outside brackets its further lines must reach the column
`indent`. `brokeLine` tells whether a line ended just before. -/
def plainScalar (flow : Bool) (indent : Int) (brokeLine : Bool) (c : Cursor) : PlainScalar :=
  let n := plainLength flow c.rest
  if atComment c.rest || n == 0 then ⟨[], c, brokeLine⟩
  else
    let part := c.rest.take n
    let gap := plainGap (c.skip n)
    if gap.text.isEmpty || atComment gap.cursor.rest || (!flow && gap.cursor.column < indent) then
      ⟨part, gap.cursor, gap.brokeLine⟩
    else if _h : gap.cursor.rest.length < c.rest.length then
      let more := plainScalar flow indent gap.brokeLine gap.cursor
      if more.text.isEmpty then { more with text := part }
      else { more with text := part ++ gap.text ++ more.text }
    else ⟨part, gap.cursor, gap.brokeLine⟩
termination_by c.rest.length

end TaggedGrammar.Yaml
