import TaggedGrammar.Yaml.Growing

/-!
# Nested collections

`Nesting.take` takes the tokens of a document one after the other: it opens and closes
collections, puts every node into the innermost one that is open, and keeps the nodes that were
named, so that an alias can repeat them.

## Implementation notes

A node that may not stand where it comes, or that repeats a collection around it, is no reason
to stop: a document that holds one is refused only when all of it has been taken. Every other
fault is the last thing that is looked at.

A property without a node behind it names an empty text. A sequence in the place of a key or a
value that is not indented begins at its first hyphen and ends with the entry that it stands in.
-/

namespace TaggedGrammar.Yaml

/-- The nodes that have been named, the latest first. A node that is not complete has no
value. -/
abbrev Anchors := List (String × Option Datum)

namespace Anchors

/-- Names a node that begins. A name is given once. -/
def declare (a : Anchors) : Option String → Option Anchors
  | none => some a
  | some name => if (a.lookup name).isSome then none else some ((name, none) :: a)

/-- Gives the node of a name its value. -/
def define (a : Anchors) (name : Option String) (d : Datum) : Anchors :=
  match name with
  | none => a
  | some name => (name, some d) :: a

end Anchors

/-- The properties read before a node. -/
structure Properties where
  anchor : Option String
  /-- Whether there is a tag, and if so, whether its handle is known. -/
  tag : Option Bool

/-- A collection that is open, with its name. -/
structure Level where
  growing : Growing
  anchor : Option String

/-- What is known after some tokens of a document. -/
structure Nesting where
  /-- The open collections, from the innermost. -/
  levels : List Level
  /-- The node outside of all collections. -/
  root : Option Datum
  /-- The properties of the next node. -/
  pending : Option Properties
  anchors : Anchors
  /-- The handles of tags that were introduced. -/
  handles : List String
  /-- Whether every node may stand where it stands. -/
  sound : Bool

namespace Nesting

/-- The state before the first token. -/
def initial (handles : List String) : Nesting := ⟨[], none, none, [], handles, true⟩

/-- The name of the next node. -/
def anchor (s : Nesting) : Option String := s.pending.bind Properties.anchor

/-- Whether the tag of the next node has a handle that is not known. -/
def hasUnknownTag (s : Nesting) : Bool := s.pending.bind Properties.tag == some false

/-- Whether a node may come next. -/
def takesNode (s : Nesting) : Bool :=
  match s.levels with
  | [] => s.root.isNone
  | level :: _ => level.growing.takesNode

/-- Puts a node where the next one comes. -/
def place (s : Nesting) (d : Datum) : Option Nesting :=
  match s.levels with
  | [] => if s.root.isNone then some { s with root := some d } else none
  | level :: rest =>
    (level.growing.takeNode d).map fun g =>
      { s with levels := { level with growing := g } :: rest
               sound := s.sound && level.growing.admits d }

/-- Takes a text as a node. -/
def takeText (s : Nesting) (text : String) : Option Nesting :=
  match s.anchors.declare s.anchor with
  | none => none
  | some a =>
    { s with pending := none, anchors := a.define s.anchor (.text text) }.place (.text text)

/-- Repeats the node of a name, which can have no properties of its own. -/
def takeAlias (s : Nesting) (name : String) : Option Nesting :=
  if s.pending.isSome then none
  else
    match s.anchors.lookup name with
    | none => none
    | some (some d) => s.place d
    | some none => { s with sound := false }.place .null

/-- Takes the empty text that properties without a node name. -/
def settle (s : Nesting) : Option Nesting :=
  match s.pending with
  | some _ => s.takeText ""
  | none => some s

/-- Opens a collection. -/
def openLevel (s : Nesting) (form : Form) : Option Nesting :=
  if s.takesNode then
    (s.anchors.declare s.anchor).map fun a =>
      { s with levels := ⟨.ofForm form, s.anchor⟩ :: s.levels, pending := none, anchors := a }
  else none

/-- Closes the innermost collection if it has one of the given forms. -/
def closeLevel (s : Nesting) (forms : List Form) : Option Nesting :=
  match s.levels with
  | [] => none
  | level :: rest =>
    if forms.contains level.growing.form then
      let d := level.growing.finish
      { s with levels := rest, anchors := s.anchors.define level.anchor d }.place d
    else none

/-- The form of the innermost open collection. -/
def form? (s : Nesting) : Option Form := s.levels.head?.map fun level => level.growing.form

/-- Closes a sequence without indentation, if one is the innermost collection. -/
def closeLoose (s : Nesting) : Option Nesting :=
  if s.form? == some .looseSequence then s.closeLevel [.looseSequence] else some s

/-- Lets the innermost collection take a mark. -/
def markLevel (s : Nesting) (m : Mark) : Option Nesting :=
  match s.levels with
  | [] => none
  | level :: rest =>
    (level.growing.takeMark m).map fun g =>
      { s with levels := { level with growing := g } :: rest }

/-- Takes a mark. The hyphen of an item in the place of a key or a value opens a sequence, which
ends at the next key or value. -/
def takeMark (s : Nesting) : Mark → Option Nesting
  | .entry =>
    if s.form? == some .blockMapping && s.takesNode then
      (s.openLevel .looseSequence).bind fun t => t.markLevel .entry
    else s.settle.bind fun t => t.markLevel .entry
  | .comma => s.settle.bind fun t => t.markLevel .comma
  | m => (s.settle.bind closeLoose).bind fun t => t.markLevel m

/-- Takes an anchor, of which a node has at most one. -/
def takeAnchor (s : Nesting) (name : String) : Option Nesting :=
  match s.takesNode, s.pending with
  | true, none => some { s with pending := some ⟨some name, none⟩ }
  | true, some ⟨none, tag⟩ => some { s with pending := some ⟨some name, tag⟩ }
  | _, _ => none

/-- Whether the handle of a tag is known. A tag without a handle needs none. -/
def knows (s : Nesting) : Option String → Bool
  | some handle => handle == "!" || handle == "!!" || s.handles.contains handle
  | none => true

/-- Takes a tag, of which a node has at most one. Behind an anchor its handle must be known at
once. -/
def takeTag (s : Nesting) (handle : Option String) : Option Nesting :=
  match s.takesNode, s.pending with
  | true, none => some { s with pending := some ⟨none, some (s.knows handle)⟩ }
  | true, some ⟨some name, none⟩ =>
    if s.knows handle then some { s with pending := some ⟨some name, some true⟩ } else none
  | _, _ => none

/-- Takes a token that is no fault. -/
def takeSound (s : Nesting) : Token → Option Nesting
  | .opening form => s.openLevel form
  | .blockEnd =>
    (s.settle.bind closeLoose).bind fun t => t.closeLevel [.blockSequence, .blockMapping]
  | .closing form => s.settle.bind fun t => t.closeLevel [form]
  | .mark m => s.takeMark m
  | .alias name => s.takeAlias name
  | .anchor name => s.takeAnchor name
  | .tag handle => s.takeTag handle
  | .scalar text => s.takeText text
  | _ => none

/-- Takes the next token. A fault is met before the tag in front of it is looked up. -/
def take (s : Nesting) : Token → Except Fault Nesting
  | .fault e => .error e
  | t => if s.hasUnknownTag then .error .malformed else orMalformed (s.takeSound t)

/-- The state at the end of a document, where all collections must be closed. -/
def finish? (s : Nesting) : Option Nesting :=
  if s.hasUnknownTag then none
  else
    match s.settle with
    | none => none
    | some t => if t.levels.isEmpty then some t else none

end Nesting

end TaggedGrammar.Yaml
