import TaggedGrammar.Yaml.Cursor
import TaggedGrammar.Yaml.Scalar.Quoted
import TaggedGrammar.Yaml.Token

/-!
# Names, tags and directives

The pieces of a document text that name something: anchors and aliases, tags, and the
directives before a document. All of them stand on one line and are made of ASCII characters,
so each reader answers with the number of characters that it takes.
-/

namespace TaggedGrammar.Yaml

/-- The name behind the indicator of an anchor or an alias. -/
def anchorName (c : Cursor) : Option (String × Cursor) :=
  let name := c.rest.takeWhile isTagChar
  let d := c.skip name.length
  let ends := match d.rest with
    | [] => true
    | ch :: _ => isGap ch || ['?', ':', ',', ']', '\x7d', '%', '@', '\x60'].contains ch
  if name.isEmpty || !ends then none else some (String.ofList name, d)

/-- Whether a character may stand in the rest of a tag. -/
def isUriChar (c : Char) : Bool :=
  c.isAlphanum || "-;/?:@&=+$,_.!~*'()[]".toList.contains c

/-- The bytes that a run of percent signs with two hexadecimal digits each stands for, and
what follows. -/
def percentBytes : List Char → Option (List UInt8 × List Char)
  | '%' :: a :: b :: cs =>
    match hexValue? a, hexValue? b with
    | some x, some y =>
      (percentBytes cs).map fun (bytes, rest) => (UInt8.ofNat (16 * x + y) :: bytes, rest)
    | _, _ => none
  | '%' :: _ => none
  | cs => some ([], cs)

/-- What follows the rest of a tag. A run of percent signs must stand for characters. -/
def afterUri (cs : List Char) : Option (List Char) :=
  match cs with
  | [] => some []
  | c :: rest =>
    if c == '%' then
      match percentBytes cs with
      | none => none
      | some (bytes, next) =>
        if (String.fromUTF8? ⟨bytes.toArray⟩).isNone then none
        else if _h : next.length ≤ rest.length then afterUri next
        else none
    else if isUriChar c then afterUri rest
    else some cs
termination_by cs.length

/-- The number of characters of the rest of a tag, at least one. -/
def uriLength (cs : List Char) : Option Nat :=
  match afterUri cs with
  | none => none
  | some rest => if rest.length < cs.length then some (cs.length - rest.length) else none

/-- The number of characters of a handle: an exclamation mark, or two with a word between
them. -/
def handleLength : List Char → Option Nat
  | '!' :: cs =>
    if cs.head? == some ' ' then some 1
    else
      let word := cs.takeWhile isTagChar
      if (cs.drop word.length).head? == some '!' then some (word.length + 2) else none
  | _ => none

/-- Reads a tag, from its exclamation mark on. -/
def tag (c : Cursor) : Option (Option String × Cursor) := do
  let next := c.rest.drop 1
  let (handle, d) ←
    if next.head? == some '<' then do
      let n ← uriLength (next.drop 1)
      let d := c.skip (n + 2)
      if d.rest.head? == some '>' then some (none, d.skip 1) else none
    else if atGap next then some (none, c.skip 1)
    else
      let word := next.takeWhile fun ch => !(ch == ' ' || isBreak ch)
      if word.contains '!' then do
        let n ← handleLength c.rest
        let m ← uriLength (c.rest.drop n)
        some (some (String.ofList (c.rest.take n)), c.skip (n + m))
      else do
        let m ← uriLength next
        some (some "!", c.skip (m + 1))
  if atSpaceOrLineEnd d.rest then some (handle, d) else none

/-- Reads the numbers of a version, of which the first matters. -/
def version (c : Cursor) : Option (Nat × Cursor) := do
  let d := c.skipSpaces
  let major := d.rest.takeWhile Char.isDigit
  let e := d.skip major.length
  let minor := (e.rest.drop 1).takeWhile Char.isDigit
  let f := e.skip (minor.length + 1)
  if major.isEmpty || minor.isEmpty || e.rest.head? != some '.' || !atSpaceOrLineEnd f.rest then
    none
  else some (major.foldl (fun n ch => 10 * n + (ch.toNat - 48)) 0, f)

/-- Reads a handle for tags and what it stands for. -/
def handle (c : Cursor) : Option (String × Cursor) := do
  let d := c.skipSpaces
  let n ← handleLength d.rest
  let e := d.skip n
  if e.rest.head? != some ' ' then none
  else do
    let f := e.skipSpaces
    let m ← uriLength f.rest
    let g := f.skip m
    if atSpaceOrLineEnd g.rest then some (String.ofList (d.rest.take n), g) else none

/-- Reads a directive behind its percent sign, without the end of its line. -/
def directive (c : Cursor) : Option (Directive × Cursor) := do
  let name := c.rest.takeWhile isTagChar
  let d := c.skip name.length
  if name.isEmpty || !atSpaceOrLineEnd d.rest then none
  else if name == "YAML".toList then (version d).map fun (n, e) => (.version n, e)
  else if name == "TAG".toList then (handle d).map fun (s, e) => (.handle s, e)
  else some (.other, d.skipLine)

end TaggedGrammar.Yaml
