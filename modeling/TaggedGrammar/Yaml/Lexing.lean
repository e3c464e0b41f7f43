import TaggedGrammar.Yaml.Property
import TaggedGrammar.Yaml.Scalar.Block
import TaggedGrammar.Yaml.Scalar.Plain

/-!
# The tokens of a document text

`tokens` divides a text into tokens. Indentation opens and closes the collections in block
form. Whether something is a key shows only at the colon behind it, so the place where a key
may begin is remembered, and the tokens that announce the key are put there afterwards.

A fault ends the tokens. In front of it stand the tokens that are certain by then: as long as a
key may still be announced somewhere, nothing behind that place is.

## Implementation notes

A key that needs no question mark ends on the line on which it begins and within 1024
characters. In brackets every level remembers its own place. Where a line of a block mapping
begins, a key is required, and it is an error if the colon does not follow.
-/

namespace TaggedGrammar.Yaml

/-- A place where a key may begin. -/
structure KeyStart where
  /-- The number of tokens before it. -/
  count : Nat
  /-- Whether a key must begin there. -/
  required : Bool
  index : Nat
  line : Nat
  column : Nat
deriving DecidableEq, Repr

/-- What is known after some tokens of a text. -/
structure Lexing where
  cursor : Cursor
  /-- The tokens found, the latest first. -/
  tokens : List Token
  /-- The number of tokens found. -/
  count : Nat
  /-- The column of the innermost block collection, or -1 outside of all. -/
  indent : Int
  /-- The columns of the block collections around the innermost. -/
  outer : List Int
  /-- Where the last node at this level of brackets may begin a key. -/
  key : Option KeyStart
  /-- The same for the levels of brackets around this one. -/
  outerKeys : List (Option KeyStart)
  /-- Whether a key may begin at the next token. -/
  keyAllowed : Bool
deriving DecidableEq, Repr

namespace Lexing

/-- The state at the beginning of a text. -/
def ofChars (cs : List Char) : Lexing := ⟨.ofChars cs, [], 0, -1, [], none, [], true⟩

/-- Whether brackets are open. -/
def inFlow (s : Lexing) : Bool := !s.outerKeys.isEmpty

/-- Adds a token. -/
def emit (s : Lexing) (t : Token) : Lexing :=
  { s with tokens := t :: s.tokens, count := s.count + 1 }

/-- Adds tokens before those found since a place. -/
def insertAt (s : Lexing) (place : KeyStart) (ts : List Token) : Lexing :=
  let since := s.count - place.count
  { s with
    tokens := s.tokens.take since ++ ts.reverse ++ s.tokens.drop since
    count := s.count + ts.length }

/-- Moves the cursor. -/
def moveTo (s : Lexing) (c : Cursor) : Lexing := { s with cursor := c }

/-- Tells whether a key may begin at the next token. -/
def allowKey (s : Lexing) (allowed : Bool) : Lexing := { s with keyAllowed := allowed }

/-- Closes the block collections that begin right of a column. -/
def closeBlocks (column : Int) (s : Lexing) : List Int → Lexing
  | [] => s
  | outer :: rest =>
    if column < s.indent then
      closeBlocks column ({ s with indent := outer, outer := rest }.emit .blockEnd) rest
    else s

/-- Closes the block collections that begin right of a column, unless brackets are open. -/
def unwind (s : Lexing) (column : Int) : Lexing :=
  if s.inFlow then s else closeBlocks column s s.outer

/-- Whether a block collection that begins at a column is deeper than the innermost. -/
def isDeeper (s : Lexing) (column : Nat) : Bool := s.indent < column

/-- Makes the block collection that begins at a column the innermost. -/
def deepen (s : Lexing) (column : Nat) : Lexing :=
  { s with indent := column, outer := s.indent :: s.outer }

/-- Gives up the place where a key may begin. It is an error if one must. -/
def dropKey (s : Lexing) : Option Lexing :=
  match s.key with
  | some place => if place.required then none else some { s with key := none }
  | none => some s

/-- Remembers the cursor as a place where a key may begin, if that is allowed here. -/
def saveKey (s : Lexing) : Option Lexing :=
  if s.keyAllowed then
    s.dropKey.map fun t =>
      let c := t.cursor
      let required := !t.inFlow && t.indent == c.column
      { t with key := some ⟨t.count, required, c.index, c.line, c.column⟩ }
  else some s

/-- Gives up a place where a key may begin if the cursor has gone too far from it. -/
def refreshKey (c : Cursor) : Option KeyStart → Option (Option KeyStart)
  | none => some none
  | some place =>
    if place.line != c.line || place.index + 1024 < c.index then
      if place.required then none else some none
    else some (some place)

/-- Gives up all places from which the cursor has gone too far. -/
def refreshKeys (s : Lexing) : Option Lexing := do
  let key ← refreshKey s.cursor s.key
  let outerKeys ← s.outerKeys.mapM (refreshKey s.cursor)
  return { s with key := key, outerKeys := outerKeys }

/-- Passes over spaces, comments and line ends. Outside brackets a key may begin on a new
line. -/
def toToken (inFlow allowed : Bool) (c : Cursor) : Bool × Cursor :=
  let d := c.skipSpaces.skipComment
  match d.lineBreak? with
  | none => (allowed, d)
  | some (_, e) =>
    if _h : e.rest.length < c.rest.length then toToken inFlow (allowed || !inFlow) e
    else (allowed, d)
termination_by c.rest.length

/-- Goes to the beginning of the next token. A byte order mark at the beginning of the text is
passed over. -/
def advance (s : Lexing) : Option Lexing := do
  let c := if s.cursor.index == 0 && s.cursor.rest.head? == some byteOrderMark
    then s.cursor.skip 1 else s.cursor
  let (allowed, d) := toToken s.inFlow s.keyAllowed c
  let t ← ((s.moveTo d).allowKey allowed).refreshKeys
  return t.unwind d.column

/-- Ends all block collections and gives up the place of a key, before a mark or directive of
a document and at the end of the text. -/
def finish (s : Lexing) : Option Lexing := ((s.unwind (-1)).dropKey).map fun t => t.allowKey false

/-- Reads a directive. -/
def readDirective (s : Lexing) : Option Lexing := do
  let t ← s.finish
  let (d, c) ← directive (t.cursor.skip 1)
  let e ← restOfLine c
  return (t.emit (.directive d)).moveTo e

/-- Reads the mark that begins or ends a document. -/
def readDocumentMark (s : Lexing) (t : Token) : Option Lexing :=
  s.finish.map fun u => (u.emit t).moveTo (u.cursor.skip 3)

/-- Reads an opening bracket. -/
def openFlow (s : Lexing) (form : Form) : Option Lexing :=
  s.saveKey.map fun t =>
    { t.emit (.opening form) with
      cursor := t.cursor.skip 1
      key := none
      outerKeys := t.key :: t.outerKeys
      keyAllowed := true }

/-- Reads a closing bracket, for which one must be open. -/
def closeFlow (s : Lexing) (form : Form) : Option Lexing := do
  let t ← s.dropKey
  match t.outerKeys with
  | [] => none
  | key :: rest =>
    return { t.emit (.closing form) with
      cursor := t.cursor.skip 1
      key := key
      outerKeys := rest
      keyAllowed := false }

/-- Reads a comma. -/
def readComma (s : Lexing) : Option Lexing :=
  s.dropKey.map fun t => ((t.emit (.mark .comma)).moveTo (t.cursor.skip 1)).allowKey true

/-- Opens a block collection at the column of the cursor, if it is deeper than the innermost.
One may only begin where a key may. -/
def openBlock (s : Lexing) (form : Form) : Option Lexing :=
  if s.inFlow then some s
  else if !s.keyAllowed then none
  else if s.isDeeper s.cursor.column then
    some ((s.deepen s.cursor.column).emit (.opening form))
  else some s

/-- Reads the hyphen before an item. -/
def readEntry (s : Lexing) : Option Lexing := do
  let t ← s.openBlock .blockSequence
  let u ← t.dropKey
  return ((u.emit (.mark .entry)).moveTo (u.cursor.skip 1)).allowKey true

/-- Reads the question mark before a key. -/
def readKey (s : Lexing) : Option Lexing := do
  let t ← s.openBlock .blockMapping
  let u ← t.dropKey
  return ((u.emit (.mark .key)).moveTo (u.cursor.skip 1)).allowKey (!u.inFlow)

/-- Announces the key that began at a place. -/
def announceKey (s : Lexing) (place : KeyStart) : Lexing :=
  let t := { s with key := none }
  if !t.inFlow && t.isDeeper place.column then
    (t.deepen place.column).insertAt place [.opening .blockMapping, .mark .key]
  else t.insertAt place [.mark .key]

/-- Reads the colon before a value. -/
def readValue (s : Lexing) : Option Lexing := do
  let t ← match s.key with
    | some place => some ((s.announceKey place).allowKey false)
    | none => do
      let t ← s.openBlock .blockMapping
      let u ← t.dropKey
      some (u.allowKey (!u.inFlow))
  return (t.emit (.mark .value)).moveTo (t.cursor.skip 1)

/-- Reads a node of one token, which may begin a key. -/
def readNode (s : Lexing) (read : Cursor → Option (Token × Cursor)) : Option Lexing := do
  let t ← s.saveKey
  let (token, c) ← read t.cursor
  return ((t.emit token).moveTo c).allowKey false

/-- Reads a block scalar, behind which a key may begin. -/
def readBlock (s : Lexing) (folded : Bool) : Option Lexing := do
  let t ← s.dropKey
  let (text, c) ← blockScalar folded (max (t.indent + 1) 1).toNat (t.cursor.skip 1)
  return ((t.emit (.scalar (String.ofList text))).moveTo c).allowKey true

/-- Reads a plain scalar. -/
def readPlain (s : Lexing) : Option Lexing := do
  let t ← s.saveKey
  let found := plainScalar t.inFlow (t.indent + 1) false t.cursor
  return ((t.emit (.scalar (String.ofList found.text))).moveTo found.cursor).allowKey
    found.brokeLine

/-- Reads a scalar between quotes of the given kind, which may begin a key. -/
def readQuoted (s : Lexing) (quote : Char) : Except Fault Lexing := do
  let t ← orMalformed s.saveKey
  let (text, c) ← quotedScalar quote (t.cursor.skip 1)
  return ((t.emit (.scalar (String.ofList text))).moveTo c).allowKey false

/-- The characters that announce something other than a plain scalar. -/
def indicators : List Char :=
  ['-', '?', ':', ',', '[', ']', '\x7b', '\x7d', '#', '&', '*', '!', '|', '>', '\'', '"', '%',
    '@', '\x60']

/-- Whether a plain scalar may begin with a character that is followed by others. -/
def startsPlain (inFlow : Bool) (ch : Char) (next : List Char) : Bool :=
  if isGap ch then false
  else if !indicators.contains ch then true
  else !atGap next && (ch == '-' || (!inFlow && (ch == '?' || ch == ':')))

/-- Reads the token that begins with a character other than a quote, which is followed by
others. -/
def readUnquoted (s : Lexing) (ch : Char) (next : List Char) : Option Lexing :=
  let atLineStart := s.cursor.column == 0
  if ch == '%' && atLineStart then s.readDirective
  else if ch == '-' && atLineStart && atDocumentMark (ch :: next) then
    s.readDocumentMark .documentStart
  else if ch == '.' && atLineStart && atDocumentMark (ch :: next) then
    s.readDocumentMark .documentEnd
  else if ch == '[' then s.openFlow .flowSequence
  else if ch == '\x7b' then s.openFlow .flowMapping
  else if ch == ']' then s.closeFlow .flowSequence
  else if ch == '\x7d' then s.closeFlow .flowMapping
  else if ch == ',' then s.readComma
  else if ch == '-' && atGap next then s.readEntry
  else if ch == '?' && (s.inFlow || atGap next) then s.readKey
  else if ch == ':' && (s.inFlow || atGap next) then s.readValue
  else if ch == '*' then
    s.readNode fun c => (anchorName (c.skip 1)).map fun (name, d) => (.alias name, d)
  else if ch == '&' then
    s.readNode fun c => (anchorName (c.skip 1)).map fun (name, d) => (.anchor name, d)
  else if ch == '!' then s.readNode fun c => (tag c).map fun (handle, d) => (.tag handle, d)
  else if ch == '|' && !s.inFlow then s.readBlock false
  else if ch == '>' && !s.inFlow then s.readBlock true
  else if startsPlain s.inFlow ch next then s.readPlain
  else none

/-- Reads the token that begins with a character, which is followed by others. -/
def readToken (s : Lexing) (ch : Char) (next : List Char) : Except Fault Lexing :=
  if ch == '\'' || ch == '"' then s.readQuoted ch else orMalformed (s.readUnquoted ch next)

/-- The number of the tokens in front of every place where a key may still be announced. -/
def certainCount (s : Lexing) : Nat :=
  ((s.key :: s.outerKeys).filterMap id).foldl (fun n place => min n place.count) s.count

/-- The tokens of a text that has a fault behind those found. -/
def withFault (s : Lexing) (e : Fault) : List Token :=
  match s.refreshKeys with
  | some t => t.tokens.reverse.take t.certainCount ++ [.fault e]
  | none => [.fault .malformed]

/-- The tokens of the text, of which some have been found. -/
def run (s : Lexing) : List Token :=
  match s.advance with
  | none => s.withFault .malformed
  | some t =>
    match t.cursor.rest with
    | [] =>
      match t.finish with
      | some u => u.tokens.reverse
      | none => s.withFault .malformed
    | ch :: next =>
      match t.readToken ch next with
      | .error e => s.withFault e
      | .ok u =>
        if _h : u.cursor.rest.length < s.cursor.rest.length then run u
        else s.withFault .malformed
termination_by s.cursor.rest.length

end Lexing

/-- The tokens of a document text. A character that may not stand in any text is a fault before
all others. -/
def tokens (text : String) : List Token :=
  let cs := text.toList
  if cs.all isAllowed then (Lexing.ofChars cs).run else [.fault .malformed]

end TaggedGrammar.Yaml
