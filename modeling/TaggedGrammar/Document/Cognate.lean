import TaggedGrammar.Document.Datum
import TaggedGrammar.Document.Error
import TaggedGrammar.Grammar.Cognate

/-!
# Cognates as data

A cognate is written as a mapping with its name and the list of its groups; a group is a
mapping with its tags, its note and the list of its rules, where tags and note are left out
when they are empty. Reading takes any scalar for a text and tells the first defect.

## Implementation notes

The shape of a whole group is checked before its first rule is parsed. The groups of a cognate
are read one after the other.
-/

namespace TaggedGrammar

namespace Datum

/-- The text of a scalar. -/
def scalar? (d : Datum) : Option String := if d.isCollection then none else some d.asText

/-- The value of a key unless it is missing or counts as missing. -/
def present? (key : String) (d : Datum) : Option Datum :=
  match d.get? key with
  | some value => if value.isBare then none else some value
  | none => none

end Datum

namespace Group

/-- The group as data. -/
def toDatum (g : Group) : Datum :=
  .mapping <|
    (if g.tags.isEmpty then []
      else [("tags", .mapping (g.tags.entries.map fun e => (e.1, .text e.2)))]) ++
    (if g.note.isEmpty then [] else [("note", .text g.note)]) ++
    [("rules", .list (g.rules.map fun r => .text r.literal))]

/-- The templates in a list of data. -/
def literalsOfData : List Datum → Except GroupDefect (List String)
  | [] => .ok []
  | d :: ds =>
    match d.scalar? with
    | some literal => (literalsOfData ds).map (literal :: ·)
    | none => .error (.ruleNotScalar d.kind)

/-- The tags in a list of entries. -/
def tagsOfEntries : List (String × Datum) → Except GroupDefect (List (String × String))
  | [] => .ok []
  | (key, d) :: es =>
    match d.scalar? with
    | some value => (tagsOfEntries es).map ((key, value) :: ·)
    | none => .error (.tagNotScalar key d.kind)

/-- The parts of a group that are data: templates, tags and note. -/
structure Parts where
  literals : List String
  tags : Table String
  note : String

/-- Takes the data of a group apart. -/
def partsOfDatum (d : Datum) : Except GroupDefect Parts := do
  let .mapping _ := d | .error .notMapping
  let some (.list rules) := d.get? "rules" | .error .rulesMissing
  let entries ← match d.present? "tags" with
    | none => Except.ok []
    | some (.mapping entries) => Except.ok entries
    | some _ => Except.error GroupDefect.tagsNotMapping
  let literals ← literalsOfData rules
  let tags ← tagsOfEntries entries
  let note := ((d.present? "note").map Datum.asText).getD ""
  return ⟨literals, Table.ofList tags, note⟩

/-- The group that data describe, as the group at an index of a cognate. -/
def ofDatum (index : Nat) (cognate : String) (d : Datum) : Except DocumentError Group :=
  match partsOfDatum d with
  | .error defect => .error (.format (.group index cognate defect))
  | .ok parts => (ofLiterals parts.literals parts.tags parts.note).mapError .invalidRule

end Group

namespace Cognate

/-- The cognate as data. -/
def toDatum (c : Cognate) : Datum :=
  .mapping [("name", .text c.name), ("groups", .list (c.groups.map Group.toDatum))]

/-- The groups that a list of data describes, from an index on. -/
def groupsOfData (cognate : String) : Nat → List Datum → Except DocumentError (List Group)
  | _, [] => .ok []
  | index, d :: ds =>
    match Group.ofDatum index cognate d with
    | .error e => .error e
    | .ok g => (groupsOfData cognate (index + 1) ds).map (g :: ·)

/-- The name and the data of the groups of a cognate. -/
def headOfDatum (d : Datum) : Except FormatError (String × List Datum) := do
  let .mapping _ := d | .error (.cognateNotMapping d.kind)
  let some name := d.get? "name" | .error .nameMissing
  let some text := name.scalar? | .error (.nameNotScalar name.kind)
  match d.present? "groups" with
  | none => return (text, [])
  | some (.list groups) => return (text, groups)
  | some _ => .error (.groupsNotList text)

/-- The cognate that data describe. -/
def ofDatum (d : Datum) : Except DocumentError Cognate :=
  match headOfDatum d with
  | .error e => .error (.format e)
  | .ok (name, groups) => (groupsOfData name 0 groups).map (⟨name, ·⟩)

/-- The cognates that a list of data describes, up to the first that cannot be read. -/
def listOfData : List Datum → Except DocumentError (List Cognate)
  | [] => .ok []
  | d :: ds =>
    match ofDatum d with
    | .error e => .error e
    | .ok c => (listOfData ds).map (c :: ·)

end Cognate

end TaggedGrammar
