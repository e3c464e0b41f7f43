import TaggedGrammar.Yaml.Cursor
import TaggedGrammar.Yaml.Fault

/-!
# Quoted scalars

Between single quotes only the quote itself is special: it is written twice. Between double
quotes a backslash introduces an escape. In both, a line end with the white space around it is
read as a space, or as the line ends that follow it; an escaped line end is read as nothing.
-/

namespace TaggedGrammar.Yaml

/-- The escapes of a single letter and the characters that they stand for. -/
def escapeLetters : List (Char × Char) :=
  [('0', '\x00'), ('a', '\x07'), ('b', '\x08'), ('t', '\t'), ('\t', '\t'), ('n', '\n'),
    ('v', '\x0B'), ('f', '\x0C'), ('r', '\r'), ('e', '\x1B'), (' ', ' '), ('"', '"'),
    ('\\', '\\'), ('/', '/'), ('N', '\u0085'), ('_', '\u00A0'), ('L', '\u2028'),
    ('P', '\u2029')]

/-- The escapes that are followed by hexadecimal digits, and how many. -/
def escapeWidths : List (Char × Nat) := [('x', 2), ('u', 4), ('U', 8)]

/-- The value of a hexadecimal digit. -/
def hexValue? (c : Char) : Option Nat :=
  if '0' ≤ c && c ≤ '9' then some (c.toNat - 48)
  else if 'a' ≤ c && c ≤ 'f' then some (c.toNat - 87)
  else if 'A' ≤ c && c ≤ 'F' then some (c.toNat - 55)
  else none

/-- The value of a number of hexadecimal digits, behind a value already read. -/
def hexFrom (value : Nat) : Nat → List Char → Option Nat
  | 0, _ => some value
  | _ + 1, [] => none
  | width + 1, c :: cs => (hexValue? c).bind fun d => hexFrom (16 * value + d) width cs

/-- The line ends behind the first one, with the white space between them passed over. A mark
that begins or ends a document may not stand in a quoted scalar. -/
def quotedBreaks (c : Cursor) : Option (List Char × Cursor) :=
  if atDocumentMark c.rest then none
  else
    let d := c.skipWhile isWhite
    match h : d.lineBreak? with
    | none => some ([], d)
    | some (b, e) =>
      have := Cursor.length_lt_of_lineBreak? h
      have := Cursor.length_skipWhile_le c isWhite
      (quotedBreaks e).map fun (more, f) => (b :: more, f)
termination_by c.rest.length
decreasing_by simp only [d] at *; omega

/-- Reads a gap of white space and line ends inside a quoted scalar. -/
def quotedGap (c : Cursor) : Option (List Char × Cursor) :=
  let d := c.skipWhile isWhite
  match d.lineBreak? with
  | none => some (c.rest.takeWhile isWhite, d)
  | some (b, e) =>
    (quotedBreaks e).map fun (breaks, f) =>
      let first := if b != '\n' then [b] else if breaks.isEmpty then [' '] else []
      (first ++ breaks, f)

/-- Reads what follows a backslash between double quotes. -/
def escape (c : Cursor) : Except Fault (List Char × Cursor) :=
  match c.lineBreak? with
  | some (_, d) => orMalformed (quotedBreaks d)
  | none =>
    match c.rest with
    | [] => .error .malformed
    | ch :: cs =>
      match escapeLetters.lookup ch, escapeWidths.lookup ch with
      | some e, _ => .ok ([e], c.skip 1)
      | none, some width =>
        match hexFrom 0 width cs with
        | some n => (characterOf n).map fun e => ([e], c.skip (width + 1))
        | none => .error .malformed
      | none, none => .error .malformed

/-- Reads a scalar between quotes of the given kind, behind the opening quote and up to and
with the closing one. -/
def quotedScalar (quote : Char) (c : Cursor) : Except Fault (List Char × Cursor) :=
  match c.rest with
  | [] => .error .malformed
  | ch :: cs =>
    let next : Except Fault (Option (List Char) × Cursor) :=
      if isGap ch then (orMalformed (quotedGap c)).map fun (text, d) => (some text, d)
      else if ch == quote then
        if quote == '\'' && cs.head? == some '\'' then .ok (some ['\''], c.skip 2)
        else .ok (none, c.skip 1)
      else if quote == '"' && ch == '\\' then
        (escape (c.skip 1)).map fun (text, d) => (some text, d)
      else .ok (some [ch], c.skip 1)
    match next with
    | .error e => .error e
    | .ok (none, d) => .ok ([], d)
    | .ok (some text, d) =>
      if _h : d.rest.length < c.rest.length then
        (quotedScalar quote d).map fun (more, e) => (text ++ more, e)
      else .error .malformed
termination_by c.rest.length

end TaggedGrammar.Yaml
