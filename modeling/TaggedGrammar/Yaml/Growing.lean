import TaggedGrammar.Document.Datum
import TaggedGrammar.Table
import TaggedGrammar.Yaml.Token

/-!
# Collections in the making

A collection of a document takes its marks and nodes one after the other. Its slot tells where
in an entry the next one stands, and so which of them may come. A value that is not written is
the empty text, and of a repeated key the first place and the last value count.
-/

namespace TaggedGrammar.Yaml

/-- Where in an entry of a collection the next item stands. -/
inductive Slot where
  /-- An entry may begin. -/
  | ready
  /-- An entry is complete. -/
  | between
  /-- A key was announced. -/
  | key
  /-- A key was read. -/
  | keyed (k : String)
  /-- The value of a key was announced. -/
  | value (k : String)

/-- A collection in the making: its items, the latest first, or its entries in order. -/
structure Growing where
  form : Form
  items : List Datum
  entries : List (String × Datum)
  slot : Slot

namespace Growing

/-- Whether a collection is a list or a mapping of entries in block form or in brackets. -/
inductive Manner where
  | blockList
  | blockMap
  | flowList
  | flowMap
deriving DecidableEq

/-- How a collection of a form grows. -/
def mannerOf : Form → Manner
  | .blockSequence => .blockList
  | .looseSequence => .blockList
  | .blockMapping => .blockMap
  | .flowSequence => .flowList
  | .flowMapping => .flowMap

/-- The empty collection of a form. In brackets an entry may begin at once; in block form a
mark comes first. -/
def ofForm (form : Form) : Growing :=
  match mannerOf form with
  | .blockList | .blockMap => ⟨form, [], [], .between⟩
  | .flowList | .flowMap => ⟨form, [], [], .ready⟩

/-- Goes to another place in an entry. -/
def goTo (g : Growing) (slot : Slot) : Growing := { g with slot := slot }

/-- Adds an item. -/
def push (g : Growing) (d : Datum) : Growing := { g with items := d :: g.items }

/-- Adds an entry, which is a mapping of its own in a list. -/
def pair (g : Growing) (k : String) (d : Datum) : Growing :=
  match mannerOf g.form with
  | .flowList => g.push (.mapping [(k, d)])
  | _ => { g with entries := Table.insertEntry k d g.entries }

/-- The value that is not written. -/
def unwritten : Datum := .text ""

/-- Completes an entry of which some part is not written. -/
def complete (g : Growing) : Growing :=
  match mannerOf g.form, g.slot with
  | .blockList, .ready => (g.push unwritten).goTo .between
  | _, .key => (g.pair "" unwritten).goTo .between
  | _, .keyed k => (g.pair k unwritten).goTo .between
  | _, .value k => (g.pair k unwritten).goTo .between
  | _, _ => g

/-- Takes a mark. -/
def takeMark (g : Growing) (m : Mark) : Option Growing :=
  match mannerOf g.form, m, g.slot with
  | .blockList, .entry, _ => some (g.complete.goTo .ready)
  | .blockList, _, _ => none
  | _, .entry, _ => none
  | .blockMap, .key, _ => some (g.complete.goTo .key)
  | .blockMap, .comma, _ => none
  | _, .key, .ready => some (g.goTo .key)
  | _, .key, _ => none
  | _, .comma, .ready => none
  | _, .comma, _ => some (g.complete.goTo .ready)
  | _, .value, .key => some (g.goTo (.value ""))
  | _, .value, .keyed k => some (g.goTo (.value k))
  | _, .value, _ => none

/-- Whether a node may come next. -/
def takesNode (g : Growing) : Bool :=
  match mannerOf g.form, g.slot with
  | .blockMap, .ready => false
  | _, .ready => true
  | _, .key => true
  | _, .value _ => true
  | _, _ => false

/-- Whether a node that comes next is a key. -/
def takesKey (g : Growing) : Bool :=
  match mannerOf g.form, g.slot with
  | .flowMap, .ready => true
  | _, .key => true
  | _, _ => false

/-- The text of a key. -/
def keyText? : Datum → Option String
  | .text s => some s
  | _ => none

/-- Whether a node may stand where it comes: a key must be a text. -/
def admits (g : Growing) (d : Datum) : Bool := !g.takesKey || (keyText? d).isSome

/-- Takes a node. What is no text stands for the empty one where a key is due. -/
def takeNode (g : Growing) (d : Datum) : Option Growing :=
  let k := (keyText? d).getD ""
  match mannerOf g.form, g.slot with
  | .blockList, .ready => some ((g.push d).goTo .between)
  | .flowList, .ready => some ((g.push d).goTo .between)
  | .flowMap, .ready => some ((g.pair k unwritten).goTo .between)
  | _, .key => some (g.goTo (.keyed k))
  | _, .value key => some ((g.pair key d).goTo .between)
  | _, _ => none

theorem takesNode_eq_isSome (g : Growing) (d : Datum) : g.takesNode = (g.takeNode d).isSome := by
  unfold takesNode takeNode
  cases mannerOf g.form <;> cases g.slot <;> rfl

/-- The collection when its last item has been taken. -/
def finish (g : Growing) : Datum :=
  let g := g.complete
  match mannerOf g.form with
  | .blockList | .flowList => .list g.items.reverse
  | .blockMap | .flowMap => .mapping g.entries

end Growing

end TaggedGrammar.Yaml
