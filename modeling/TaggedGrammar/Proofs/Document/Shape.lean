import TaggedGrammar.Proofs.Document.Cognate

/-!
# The shape of data that describe cognates

Data describe a cognate if they have the shape of one: a mapping with a name and a list of groups,
each of them a mapping with a list of rules that can be read. Other data have a first defect. What
is wrong with the cognate itself comes before what is wrong with its groups, the groups are looked
at in their order, and what is wrong with the shape of a group comes before a rule of it that cannot
be read.

## Main statements

* `Group.partsOfDatum_eq_ok_iff`, `Group.partsOfDatum_eq_error_iff`: the shape of a group.
* `Group.describes_iff_matches`, `Group.ofDatum_eq_error_iff`: which group data describe, and what
  is wrong with data that describe none.
* `Cognate.ofDatum_iff_shape`: the same of cognates.

## Implementation notes

The shape is said in terms of the entries of mappings, without the functions that take data apart.
-/

namespace TaggedGrammar

/-! ### Parts that may be left out -/

namespace Datum

/-- The key is missing from the entries, or its value counts as missing. -/
def Omits (es : List (String × Datum)) (key : String) : Prop :=
  ∀ value, es.lookup key = some value → value.isBare = true

variable {es : List (String × Datum)} {key : String} {d value : Datum}

theorem present?_mapping :
    (mapping es).present? key = (es.lookup key).filter fun value => !value.isBare := by
  have hget : (mapping es).get? key = es.lookup key := rfl
  rw [present?, hget]
  cases es.lookup key with
  | none => rfl
  | some value => cases hbare : value.isBare <;> simp [hbare, Option.filter]

theorem present?_eq_none_iff : (mapping es).present? key = none ↔ Omits es key := by
  rw [present?_mapping, Option.filter_eq_none_iff]
  simp only [Bool.not_eq_true', Bool.not_eq_false, Omits]

theorem present?_eq_some_iff :
    (mapping es).present? key = some value ↔ es.lookup key = some value ∧ value.isBare = false := by
  rw [present?_mapping, Option.filter_eq_some_iff, Bool.not_eq_true']

/-- The entries have the part under the key, and it is empty if it is left out. -/
def HasPart (es : List (String × Datum)) (key : String) (part : Datum) : Prop :=
  Omits es key ∧ part.isBare = true ∨ es.lookup key = some part

theorem HasPart.present?_eq (h : HasPart es key value) :
    (mapping es).present? key = if value.isBare then none else some value := by
  cases hbare : value.isBare with
  | true =>
      apply present?_eq_none_iff.mpr
      rcases h with ⟨homits, -⟩ | hvalue
      · exact homits
      · intro other hother
        rwa [← Option.some.inj (hvalue.symm.trans hother)]
  | false =>
      rcases h with ⟨-, hempty⟩ | hvalue
      · exact absurd hempty (by simp [hbare])
      · exact present?_eq_some_iff.mpr ⟨hvalue, hbare⟩

end Datum

/-! ### Groups -/

namespace Group

open Datum

variable {d : Datum} {es tags : List (String × Datum)} {rules : List Datum}

/-- The data are a mapping with a list of rules and, unless they are left out, a mapping of tags. -/
structure Outline (d : Datum) (es : List (String × Datum)) (rules : List Datum)
    (tags : List (String × Datum)) : Prop where
  eq_mapping : d = .mapping es
  lookup_rules : es.lookup "rules" = some (.list rules)
  tags_part : HasPart es "tags" (.mapping tags)

/-- What is wrong with data that have no outline. -/
inductive OutlineDefect (d : Datum) : GroupDefect → Prop where
  | notMapping (h : ∀ es, d ≠ .mapping es) : OutlineDefect d .notMapping
  | rulesMissing {es : List (String × Datum)} (h : d = .mapping es)
      (hrules : ∀ rules, es.lookup "rules" ≠ some (.list rules)) : OutlineDefect d .rulesMissing
  | tagsNotMapping {es : List (String × Datum)} {rules : List Datum} {value : Datum}
      (h : d = .mapping es) (hrules : es.lookup "rules" = some (.list rules))
      (htags : es.lookup "tags" = some value) (hbare : value.isBare = false)
      (hmapping : ∀ tags, value ≠ .mapping tags) : OutlineDefect d .tagsNotMapping

/-- The entries have the note, which is empty if it is left out. -/
def NoteIs (es : List (String × Datum)) (note : String) : Prop :=
  Omits es "note" ∧ note = "" ∨
    ∃ value, es.lookup "note" = some value ∧ value.isBare = false ∧ note = value.asText

theorem noteIs_iff {note : String} :
    NoteIs es note ↔ note = (((mapping es).present? "note").map asText).getD "" := by
  unfold NoteIs
  cases hnote : (mapping es).present? "note" with
  | none =>
      have homits : Omits es "note" := present?_eq_none_iff.mp hnote
      constructor
      · rintro (⟨-, rfl⟩ | ⟨value, hvalue, hbare, -⟩)
        · rfl
        · exact absurd (homits value hvalue) (by simp [hbare])
      · exact fun h => Or.inl ⟨homits, h⟩
  | some value =>
      obtain ⟨hvalue, hbare⟩ := present?_eq_some_iff.mp hnote
      constructor
      · rintro (⟨homits, -⟩ | ⟨other, hother, -, rfl⟩)
        · exact absurd (homits value hvalue) (by simp [hbare])
        · rw [Option.some.inj (hvalue.symm.trans hother)]
          rfl
      · exact fun h => Or.inr ⟨value, hvalue, hbare, h⟩

/-- Behind the outline the rules and then the tags are looked at. -/
theorem Outline.partsOfDatum_eq (h : Outline d es rules tags) :
    partsOfDatum d = (literalsOfData rules).bind fun literals =>
      (tagsOfEntries tags).map fun entries => ⟨literals, Table.ofList entries,
        (((mapping es).present? "note").map asText).getD ""⟩ := by
  have htags := h.tags_part.present?_eq
  obtain ⟨rfl, hrules, -⟩ := h
  have hget : (mapping es).get? "rules" = some (.list rules) := hrules
  simp only [partsOfDatum, hget, htags, bind, Except.bind]
  -- Tags that are left out and an empty mapping of tags are both read as no tags.
  cases tags with
  | nil => cases literalsOfData rules <;> rfl
  | cons e tags =>
      have hbare : (mapping (e :: tags)).isBare = false := rfl
      simp only [hbare, Bool.false_eq_true, if_false]
      cases literalsOfData rules with
      | error defect => rfl
      | ok literals => cases tagsOfEntries (e :: tags) <;> rfl

theorem OutlineDefect.partsOfDatum_eq {defect : GroupDefect} (h : OutlineDefect d defect) :
    partsOfDatum d = .error defect := by
  cases h with
  | notMapping h =>
      cases d with
      | mapping es => exact absurd rfl (h es)
      | _ => rfl
  | @rulesMissing es h hrules =>
      subst h
      have hget : (mapping es).get? "rules" = es.lookup "rules" := rfl
      simp only [partsOfDatum, hget]
  | @tagsNotMapping es rules value h hrules htags hbare hmapping =>
      subst h
      have hget : (mapping es).get? "rules" = some (.list rules) := hrules
      have hpresent : (mapping es).present? "tags" = some value :=
        present?_eq_some_iff.mpr ⟨htags, hbare⟩
      simp only [partsOfDatum, hget, hpresent]
      cases value with
      | mapping tags => exact absurd rfl (hmapping tags)
      | _ => rfl

theorem exists_outline_or_defect (d : Datum) :
    (∃ es rules tags, Outline d es rules tags) ∨ ∃ defect, OutlineDefect d defect := by
  by_cases hd : ∃ es, d = .mapping es
  · obtain ⟨es, rfl⟩ := hd
    by_cases hrules : ∃ rules, es.lookup "rules" = some (.list rules)
    · obtain ⟨rules, hrules⟩ := hrules
      cases htags : (mapping es).present? "tags" with
      | none =>
          exact Or.inl ⟨es, rules, [], rfl, hrules, Or.inl ⟨present?_eq_none_iff.mp htags, rfl⟩⟩
      | some value =>
          obtain ⟨hvalue, hbare⟩ := present?_eq_some_iff.mp htags
          by_cases hmapping : ∃ tags, value = .mapping tags
          · obtain ⟨tags, rfl⟩ := hmapping
            exact Or.inl ⟨es, rules, tags, rfl, hrules, Or.inr hvalue⟩
          · exact Or.inr ⟨_, .tagsNotMapping rfl hrules hvalue hbare (not_exists.mp hmapping)⟩
    · exact Or.inr ⟨_, .rulesMissing rfl (not_exists.mp hrules)⟩
  · exact Or.inr ⟨_, .notMapping (not_exists.mp hd)⟩

/-- The outline of data in which all rules and all values of tags are scalars. -/
structure Shape (d : Datum) (es : List (String × Datum)) (rules : List Datum)
    (tags : List (String × Datum)) : Prop extends Outline d es rules tags where
  rules_scalar : ∀ rule ∈ rules, rule.isCollection = false
  tags_scalar : ∀ e ∈ tags, e.2.isCollection = false

/-- What is wrong with data that have not the shape of a group: the outline, the first rule that is
no scalar, or behind scalar rules the first tag whose value is none. -/
inductive ShapeDefect (d : Datum) : GroupDefect → Prop where
  | outline {defect : GroupDefect} (h : OutlineDefect d defect) : ShapeDefect d defect
  | ruleNotScalar {es tags : List (String × Datum)} {before after : List Datum} {rule : Datum}
      (h : Outline d es (before ++ rule :: after) tags)
      (hbefore : ∀ r ∈ before, r.isCollection = false) (hrule : rule.isCollection = true) :
      ShapeDefect d (.ruleNotScalar rule.kind)
  | tagNotScalar {es before after : List (String × Datum)} {rules : List Datum} {key : String}
      {value : Datum} (h : Outline d es rules (before ++ (key, value) :: after))
      (hrules : ∀ rule ∈ rules, rule.isCollection = false)
      (hbefore : ∀ e ∈ before, e.2.isCollection = false) (hvalue : value.isCollection = true) :
      ShapeDefect d (.tagNotScalar key value.kind)

/-- The text of a scalar, or a defect. -/
def scalarOr (defect : GroupDefect) (d : Datum) : Except GroupDefect String :=
  if d.isCollection then .error defect else .ok d.asText

theorem scalarOr_eq_ok_iff {defect : GroupDefect} {text : String} :
    scalarOr defect d = .ok text ↔ d.isCollection = false ∧ text = d.asText := by
  unfold scalarOr
  cases d.isCollection with
  | true => simp
  | false => simp [eq_comm]

theorem scalarOr_eq_error_iff {defect defect' : GroupDefect} :
    scalarOr defect d = .error defect' ↔ d.isCollection = true ∧ defect = defect' := by
  unfold scalarOr
  cases d.isCollection with
  | true => simp
  | false => simp

theorem inTurn_literalsOfData :
    Answer.InTurn (fun d text => d.isCollection = false ∧ text = d.asText)
      (fun _ d => scalarOr (.ruleNotScalar d.kind) d) fun _ => literalsOfData where
  item _ _ _ := scalarOr_eq_ok_iff
  nil _ := rfl
  cons _ d ds := by
    rw [literalsOfData, scalar?, scalarOr]
    cases d.isCollection <;> rfl

theorem inTurn_tagsOfEntries :
    Answer.InTurn (fun e tag => e.2.isCollection = false ∧ tag = (e.1, e.2.asText))
      (fun _ e => (scalarOr (.tagNotScalar e.1 e.2.kind) e.2).map (e.1, ·))
      fun _ => tagsOfEntries where
  item _ e tag := by
    rw [Answer.map_eq_ok_iff]
    simp only [scalarOr_eq_ok_iff]
    constructor
    · rintro ⟨text, ⟨hscalar, rfl⟩, rfl⟩
      exact ⟨hscalar, rfl⟩
    · rintro ⟨hscalar, rfl⟩
      exact ⟨_, ⟨hscalar, rfl⟩, rfl⟩
  nil _ := rfl
  cons _ e es := by
    rw [tagsOfEntries, scalar?, scalarOr]
    cases e.2.isCollection <;> rfl

theorem literalsOfData_eq_ok_iff {literals : List String} :
    literalsOfData rules = .ok literals ↔
      (∀ rule ∈ rules, rule.isCollection = false) ∧ literals = rules.map asText :=
  (inTurn_literalsOfData.eq_ok_iff (i := 0)).trans Answer.forall₂_iff_map

theorem literalsOfData_eq_error_iff {defect : GroupDefect} :
    literalsOfData rules = .error defect ↔ ∃ before rule after, rules = before ++ rule :: after ∧
      (∀ r ∈ before, r.isCollection = false) ∧ rule.isCollection = true ∧
        .ruleNotScalar rule.kind = defect := by
  rw [inTurn_literalsOfData.eq_error_iff (i := 0)]
  simp only [exists_and_left, exists_eq, and_true, scalarOr_eq_error_iff]

theorem tagsOfEntries_eq_ok_iff {entries : List (String × String)} :
    tagsOfEntries tags = .ok entries ↔
      (∀ e ∈ tags, e.2.isCollection = false) ∧ entries = tags.map fun e => (e.1, e.2.asText) :=
  (inTurn_tagsOfEntries.eq_ok_iff (i := 0)).trans Answer.forall₂_iff_map

theorem tagsOfEntries_eq_error_iff {defect : GroupDefect} :
    tagsOfEntries tags = .error defect ↔ ∃ before e after, tags = before ++ e :: after ∧
      (∀ e ∈ before, e.2.isCollection = false) ∧ e.2.isCollection = true ∧
        .tagNotScalar e.1 e.2.kind = defect := by
  rw [inTurn_tagsOfEntries.eq_error_iff (i := 0)]
  simp only [exists_and_left, exists_eq, and_true, Answer.map_eq_error_iff,
    scalarOr_eq_error_iff]

/-- The parts of data in the shape of a group are the texts of the rules, those of the tags, and the
note. -/
theorem partsOfDatum_eq_ok_iff {parts : Parts} :
    partsOfDatum d = .ok parts ↔ ∃ es rules tags, Shape d es rules tags ∧
      parts.literals = rules.map asText ∧
      parts.tags = Table.ofList (tags.map fun e => (e.1, e.2.asText)) ∧ NoteIs es parts.note := by
  constructor
  · intro h
    rcases exists_outline_or_defect d with ⟨es, rules, tags, houtline⟩ | ⟨defect, hdefect⟩
    · rw [houtline.partsOfDatum_eq, Answer.bind_map_eq_ok_iff] at h
      obtain ⟨literals, entries, hliterals, hentries, rfl⟩ := h
      obtain ⟨hrules, rfl⟩ := literalsOfData_eq_ok_iff.mp hliterals
      obtain ⟨htags, rfl⟩ := tagsOfEntries_eq_ok_iff.mp hentries
      exact ⟨es, rules, tags, ⟨houtline, hrules, htags⟩, rfl, rfl, noteIs_iff.mpr rfl⟩
    · rw [hdefect.partsOfDatum_eq] at h
      cases h
  · rintro ⟨es, rules, tags, hshape, hliterals, htags, hnote⟩
    rw [hshape.partsOfDatum_eq, Answer.bind_map_eq_ok_iff]
    refine ⟨_, _, literalsOfData_eq_ok_iff.mpr ⟨hshape.rules_scalar, rfl⟩,
      tagsOfEntries_eq_ok_iff.mpr ⟨hshape.tags_scalar, rfl⟩, ?_⟩
    rw [← hliterals, ← htags, ← noteIs_iff.mp hnote]

/-- Other data have a defect, and it is told. -/
theorem partsOfDatum_eq_error_iff {defect : GroupDefect} :
    partsOfDatum d = .error defect ↔ ShapeDefect d defect := by
  constructor
  · intro h
    rcases exists_outline_or_defect d with ⟨es, rules, tags, houtline⟩ | ⟨other, hother⟩
    · rw [houtline.partsOfDatum_eq, Answer.bind_map_eq_error_iff] at h
      rcases h with hrules | ⟨⟨literals, hliterals⟩, htags⟩
      · obtain ⟨before, rule, after, rfl, hbefore, hrule, rfl⟩ :=
          literalsOfData_eq_error_iff.mp hrules
        exact .ruleNotScalar houtline hbefore hrule
      · obtain ⟨before, e, after, rfl, hbefore, hvalue, rfl⟩ := tagsOfEntries_eq_error_iff.mp htags
        exact .tagNotScalar houtline (literalsOfData_eq_ok_iff.mp hliterals).1 hbefore hvalue
    · rw [hother.partsOfDatum_eq] at h
      obtain rfl := Except.error.inj h
      exact .outline hother
  · intro h
    cases h with
    | outline h => exact h.partsOfDatum_eq
    | ruleNotScalar h hbefore hrule =>
        rw [h.partsOfDatum_eq, Answer.bind_map_eq_error_iff]
        exact Or.inl (literalsOfData_eq_error_iff.mpr ⟨_, _, _, rfl, hbefore, hrule, rfl⟩)
    | tagNotScalar h hrules hbefore hvalue =>
        rw [h.partsOfDatum_eq, Answer.bind_map_eq_error_iff]
        exact Or.inr ⟨⟨_, literalsOfData_eq_ok_iff.mpr ⟨hrules, rfl⟩⟩,
          tagsOfEntries_eq_error_iff.mpr ⟨_, _, _, rfl, hbefore, hvalue, rfl⟩⟩

/-- The data have the shape of a group and the texts of this one: the templates of its rules, which
are parsed, the tags in their order, where a repeated key keeps its first place and takes its last
value, and the note. -/
def Matches (d : Datum) (g : Group) : Prop :=
  ∃ es rules tags, Shape d es rules tags ∧ g.literals = rules.map asText ∧ g.Parsed ∧
    g.tags = Table.ofList (tags.map fun e => (e.1, e.2.asText)) ∧ NoteIs es g.note

theorem describes_iff_matches {g : Group} : Describes d g ↔ Matches d g := by
  unfold Describes
  simp only [partsOfDatum_eq_ok_iff, ofLiterals_eq_ok_iff]
  constructor
  · rintro ⟨parts, ⟨es, rules, tags, hshape, hrules, htags, hnote⟩, hliterals, hparsed, hg⟩
    exact ⟨es, rules, tags, hshape, hliterals.trans hrules, hparsed, hg.1.trans htags, hg.2 ▸ hnote⟩
  · rintro ⟨es, rules, tags, hshape, hrules, hparsed, htags, hnote⟩
    exact ⟨⟨g.literals, g.tags, g.note⟩, ⟨es, rules, tags, hshape, hrules, htags, hnote⟩, rfl,
      hparsed, rfl, rfl⟩

/-! #### The rules of data in the shape of a group -/

theorem ofLiterals_eq_error_iff {literals : List String} {table : Table String} {note : String}
    {e : InvalidRule} :
    ofLiterals literals table note = .error e ↔ Rule.ofLiterals literals = .error e :=
  Answer.map_eq_error_iff

theorem ShapeDefect.ofDatum_eq {defect : GroupDefect} (h : ShapeDefect d defect) (index : Nat)
    (cognate : String) :
    ofDatum index cognate d = .error (.format (.group index cognate defect)) := by
  unfold ofDatum
  rw [partsOfDatum_eq_error_iff.mpr h]

theorem Shape.ofDatum_eq_error_iff {index : Nat} {cognate : String} {e : DocumentError}
    (h : Shape d es rules tags) :
    ofDatum index cognate d = .error e ↔ ∃ before rule after error,
      rules = before ++ rule :: after ∧
        (∀ r ∈ before, ∃ tokens, Template.parse r.asText = .ok tokens) ∧
          Template.parse rule.asText = .error error ∧
            e = .invalidRule ⟨rule.asText, error⟩ := by
  have hparts : partsOfDatum d = .ok ⟨rules.map asText, _, _⟩ :=
    partsOfDatum_eq_ok_iff.mpr ⟨es, rules, tags, h, rfl, rfl, noteIs_iff.mpr rfl⟩
  unfold ofDatum
  rw [hparts]
  simp only [Answer.mapError_eq_error_iff, ofLiterals_eq_error_iff, Rule.ofLiterals_eq_error_iff]
  constructor
  · rintro ⟨⟨_, error⟩, ⟨before, after, hmap, hbefore, hrule⟩, rfl⟩
    obtain ⟨first, rest, rfl, rfl, hrest⟩ := List.map_eq_append_iff.mp hmap
    obtain ⟨rule, after, rfl, rfl, rfl⟩ := List.map_eq_cons_iff.mp hrest
    refine ⟨first, rule, after, error, rfl, ?_, hrule, rfl⟩
    exact fun r hr => hbefore _ (List.mem_map_of_mem hr)
  · rintro ⟨before, rule, after, error, rfl, hbefore, hrule, rfl⟩
    refine ⟨_, ⟨before.map asText, after.map asText, List.map_append, ?_, hrule⟩, rfl⟩
    intro text htext
    obtain ⟨r, hr, rfl⟩ := List.mem_map.mp htext
    exact hbefore r hr

theorem exists_shape_or_defect (d : Datum) :
    (∃ es rules tags, Shape d es rules tags) ∨ ∃ defect, ShapeDefect d defect := by
  cases hparts : partsOfDatum d with
  | error defect => exact Or.inr ⟨defect, partsOfDatum_eq_error_iff.mp hparts⟩
  | ok parts =>
      obtain ⟨es, rules, tags, hshape, -⟩ := partsOfDatum_eq_ok_iff.mp hparts
      exact Or.inl ⟨es, rules, tags, hshape⟩

/-- What is wrong with data that match no group: their shape, or in the right shape the first rule
that cannot be read. -/
inductive Fails (index : Nat) (cognate : String) (d : Datum) : DocumentError → Prop where
  | shape {defect : GroupDefect} (h : ShapeDefect d defect) :
      Fails index cognate d (.format (.group index cognate defect))
  | rule {es tags : List (String × Datum)} {before after : List Datum} {rule : Datum}
      {error : ParseError} (h : Shape d es (before ++ rule :: after) tags)
      (hbefore : ∀ r ∈ before, ∃ tokens, Template.parse r.asText = .ok tokens)
      (hrule : Template.parse rule.asText = .error error) :
      Fails index cognate d (.invalidRule ⟨rule.asText, error⟩)

theorem ofDatum_eq_error_iff {index : Nat} {cognate : String} {e : DocumentError} :
    ofDatum index cognate d = .error e ↔ Fails index cognate d e := by
  constructor
  · intro h
    rcases exists_shape_or_defect d with ⟨es, rules, tags, hshape⟩ | ⟨defect, hdefect⟩
    · obtain ⟨before, rule, after, error, rfl, hbefore, hrule, rfl⟩ :=
        hshape.ofDatum_eq_error_iff.mp h
      exact .rule hshape hbefore hrule
    · obtain rfl := Except.error.inj ((hdefect.ofDatum_eq index cognate).symm.trans h)
      exact .shape hdefect
  · intro h
    cases h with
    | shape h => exact h.ofDatum_eq index cognate
    | rule h hbefore hrule =>
        exact h.ofDatum_eq_error_iff.mpr ⟨_, _, _, _, rfl, hbefore, hrule, rfl⟩

end Group

/-! ### Cognates -/

namespace Cognate

open Datum

variable {d name : Datum} {es : List (String × Datum)} {groups : List Datum}

/-- The data are a mapping with a scalar as its name and, unless they are left out, a list of
groups. -/
structure Outline (d : Datum) (es : List (String × Datum)) (name : Datum) (groups : List Datum) :
    Prop where
  eq_mapping : d = .mapping es
  lookup_name : es.lookup "name" = some name
  name_scalar : name.isCollection = false
  groups_part : HasPart es "groups" (.list groups)

/-- What is wrong with data that have no outline. -/
inductive OutlineDefect (d : Datum) : FormatError → Prop where
  | notMapping (h : ∀ es, d ≠ .mapping es) : OutlineDefect d (.cognateNotMapping d.kind)
  | nameMissing {es : List (String × Datum)} (h : d = .mapping es)
      (hname : es.lookup "name" = none) : OutlineDefect d .nameMissing
  | nameNotScalar {es : List (String × Datum)} {name : Datum} (h : d = .mapping es)
      (hname : es.lookup "name" = some name) (hscalar : name.isCollection = true) :
      OutlineDefect d (.nameNotScalar name.kind)
  | groupsNotList {es : List (String × Datum)} {name value : Datum} (h : d = .mapping es)
      (hname : es.lookup "name" = some name) (hscalar : name.isCollection = false)
      (hgroups : es.lookup "groups" = some value) (hbare : value.isBare = false)
      (hlist : ∀ groups, value ≠ .list groups) : OutlineDefect d (.groupsNotList name.asText)

theorem Outline.headOfDatum_eq (h : Outline d es name groups) :
    headOfDatum d = .ok (name.asText, groups) := by
  have hgroups := h.groups_part.present?_eq
  obtain ⟨rfl, hname, hscalar, -⟩ := h
  have hget : (mapping es).get? "name" = some name := hname
  have htext : name.scalar? = some name.asText := by simp [scalar?, hscalar]
  simp only [headOfDatum, hget, htext, hgroups]
  cases groups <;> rfl

theorem OutlineDefect.headOfDatum_eq {e : FormatError} (h : OutlineDefect d e) :
    headOfDatum d = .error e := by
  cases h with
  | notMapping h =>
      cases d with
      | mapping es => exact absurd rfl (h es)
      | _ => rfl
  | @nameMissing es h hname =>
      subst h
      have hget : (mapping es).get? "name" = none := hname
      simp only [headOfDatum, hget]
  | @nameNotScalar es name h hname hscalar =>
      subst h
      have hget : (mapping es).get? "name" = some name := hname
      have htext : name.scalar? = none := by simp [scalar?, hscalar]
      simp only [headOfDatum, hget, htext]
  | @groupsNotList es name value h hname hscalar hgroups hbare hlist =>
      subst h
      have hget : (mapping es).get? "name" = some name := hname
      have htext : name.scalar? = some name.asText := by simp [scalar?, hscalar]
      have hpresent : (mapping es).present? "groups" = some value :=
        present?_eq_some_iff.mpr ⟨hgroups, hbare⟩
      simp only [headOfDatum, hget, htext, hpresent]

theorem exists_outline_or_defect (d : Datum) :
    (∃ es name groups, Outline d es name groups) ∨ ∃ e, OutlineDefect d e := by
  by_cases hd : ∃ es, d = .mapping es
  · obtain ⟨es, rfl⟩ := hd
    cases hname : es.lookup "name" with
    | none => exact Or.inr ⟨_, .nameMissing rfl hname⟩
    | some name =>
        cases hscalar : name.isCollection with
        | true => exact Or.inr ⟨_, .nameNotScalar rfl hname hscalar⟩
        | false =>
            cases hgroups : (mapping es).present? "groups" with
            | none =>
                have homits := present?_eq_none_iff.mp hgroups
                exact Or.inl ⟨es, name, [], rfl, hname, hscalar, Or.inl ⟨homits, rfl⟩⟩
            | some value =>
                obtain ⟨hvalue, hbare⟩ := present?_eq_some_iff.mp hgroups
                by_cases hlist : ∃ groups, value = .list groups
                · obtain ⟨groups, rfl⟩ := hlist
                  exact Or.inl ⟨es, name, groups, rfl, hname, hscalar, Or.inr hvalue⟩
                · exact Or.inr ⟨_, .groupsNotList rfl hname hscalar hvalue hbare
                    (not_exists.mp hlist)⟩
  · exact Or.inr ⟨_, .notMapping (not_exists.mp hd)⟩

/-- The data have the outline of a cognate, its name, and data that match its groups in their
order. -/
def Matches (d : Datum) (c : Cognate) : Prop :=
  ∃ es name groups, Outline d es name groups ∧ c.name = name.asText ∧
    List.Forall₂ Group.Matches groups c.groups

/-- What is wrong with data that match no cognate: their outline, or behind data that match groups
the first that match none. -/
inductive Fails (d : Datum) : DocumentError → Prop where
  | outline {e : FormatError} (h : OutlineDefect d e) : Fails d (.format e)
  | group {es : List (String × Datum)} {name group : Datum} {before after : List Datum}
      {e : DocumentError} (h : Outline d es name (before ++ group :: after))
      (hbefore : ∀ b ∈ before, ∃ g, Group.Matches b g)
      (hgroup : Group.Fails before.length name.asText group e) : Fails d e

theorem groupsOfData_eq_ok_iff {cognate : String} {gs : List Group} :
    groupsOfData cognate 0 groups = .ok gs ↔ List.Forall₂ Group.Matches groups gs := by
  rw [(inTurn_groupsOfData cognate).eq_ok_iff]
  constructor
  · exact List.Forall₂.imp fun _ _ => Group.describes_iff_matches.mp
  · exact List.Forall₂.imp fun _ _ => Group.describes_iff_matches.mpr

theorem groupsOfData_eq_error_iff {cognate : String} {e : DocumentError} :
    groupsOfData cognate 0 groups = .error e ↔ ∃ before group after,
      groups = before ++ group :: after ∧ (∀ b ∈ before, ∃ g, Group.Matches b g) ∧
        Group.Fails before.length cognate group e := by
  rw [(inTurn_groupsOfData cognate).eq_error_iff]
  simp only [Group.describes_iff_matches, Group.ofDatum_eq_error_iff, Nat.zero_add]

theorem Outline.ofDatum_eq (h : Outline d es name groups) :
    ofDatum d = (groupsOfData name.asText 0 groups).map (⟨name.asText, ·⟩) := by
  unfold ofDatum
  rw [h.headOfDatum_eq]

theorem OutlineDefect.ofDatum_eq {e : FormatError} (h : OutlineDefect d e) :
    ofDatum d = .error (.format e) := by
  unfold ofDatum
  rw [h.headOfDatum_eq]

theorem ofDatum_eq_ok_iff {c : Cognate} : ofDatum d = .ok c ↔ Matches d c := by
  constructor
  · intro h
    rcases exists_outline_or_defect d with ⟨es, name, groups, houtline⟩ | ⟨e, hdefect⟩
    · rw [houtline.ofDatum_eq, Answer.map_eq_ok_iff] at h
      obtain ⟨gs, hgroups, rfl⟩ := h
      exact ⟨es, name, groups, houtline, rfl, groupsOfData_eq_ok_iff.mp hgroups⟩
    · cases hdefect.ofDatum_eq.symm.trans h
  · rintro ⟨es, name, groups, houtline, hname, hgroups⟩
    rw [houtline.ofDatum_eq, groupsOfData_eq_ok_iff.mpr hgroups, ← hname]
    rfl

theorem ofDatum_eq_error_iff {e : DocumentError} : ofDatum d = .error e ↔ Fails d e := by
  constructor
  · intro h
    rcases exists_outline_or_defect d with ⟨es, name, groups, houtline⟩ | ⟨other, hdefect⟩
    · rw [houtline.ofDatum_eq, Answer.map_eq_error_iff, groupsOfData_eq_error_iff] at h
      obtain ⟨before, group, after, rfl, hbefore, hgroup⟩ := h
      exact .group houtline hbefore hgroup
    · obtain rfl := Except.error.inj (hdefect.ofDatum_eq.symm.trans h)
      exact .outline hdefect
  · intro h
    cases h with
    | outline h => exact h.ofDatum_eq
    | @group es name group before after e h hbefore hgroup =>
        rw [h.ofDatum_eq, Answer.map_eq_error_iff, groupsOfData_eq_error_iff]
        exact ⟨before, group, after, rfl, hbefore, hgroup⟩

/-- Data describe the cognate that they match. Data that match none are refused for what is wrong
with their outline or else with the first group. -/
theorem ofDatum_iff_shape (d : Datum) :
    (∀ c, ofDatum d = .ok c ↔ Matches d c) ∧ ∀ e, ofDatum d = .error e ↔ Fails d e :=
  ⟨fun _ => ofDatum_eq_ok_iff, fun _ => ofDatum_eq_error_iff⟩

example :
    ofDatum (.mapping [("name", .integer 5),
        ("groups", .list [.mapping [("rules", .list [.text "<", .list []])]])]) =
      .error (.format (.group 0 "5" (.ruleNotScalar "list"))) := by
  rfl

end Cognate

end TaggedGrammar
