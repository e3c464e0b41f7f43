import TaggedGrammar.Document.Cognate
import TaggedGrammar.Proofs.Answer
import TaggedGrammar.Proofs.Table

/-!
# Cognates and their data

Which cognates data describe. The parts of a group that may be left out are empty where they
are missing, and the templates of parsed rules give the same tokens.

## Main statements

* `Group.describes_describe_iff`, `Group.describes_toDatum`: the data of a group.
* `Cognate.ofDatum_headed_iff`, `Cognate.ofDatum_toDatum`: the data of a cognate.
* `Cognate.listOfData_map_iff`: the data of cognates one after the other.
-/

namespace TaggedGrammar

/-! ### Rules -/

namespace Rule

theorem ofLiterals_cons (text : String) (literals : List String) :
    ofLiterals (text :: literals) =
      (ofLiteral text).bind fun r => (ofLiterals literals).map (r :: ·) := by
  rw [ofLiterals]
  cases ofLiteral text <;> rfl

theorem inTurn_ofLiterals : Answer.InTurn (fun text r => ofLiteral text = .ok r)
    (fun _ => ofLiteral) fun _ => ofLiterals where
  item _ _ _ := Iff.rfl
  nil _ := rfl
  cons _ := ofLiterals_cons

theorem ofLiterals_eq_ok_iff {literals : List String} {rules : List Rule} :
    ofLiterals literals = .ok rules ↔ rules.map literal = literals ∧ ∀ r ∈ rules, r.Parsed := by
  have hparsed : ∀ text r, ofLiteral text = .ok r ↔ r.Parsed ∧ text = r.literal := by
    intro text r
    rw [ofLiteral_eq_ok_iff, and_comm, eq_comm]
  calc
    ofLiterals literals = .ok rules
        ↔ List.Forall₂ (fun text r => ofLiteral text = .ok r) literals rules :=
      inTurn_ofLiterals.eq_ok_iff (i := 0)
    _ ↔ List.Forall₂ (fun r text => r.Parsed ∧ text = r.literal) rules literals := by
      simp only [hparsed]
      exact ⟨List.Forall₂.flip, List.Forall₂.flip⟩
    _ ↔ _ := by
      rw [Answer.forall₂_iff_map, and_comm, eq_comm]

theorem exists_ofLiteral_iff {text : String} :
    (∃ r, ofLiteral text = .ok r) ↔ ∃ tokens, Template.parse text = .ok tokens := by
  constructor
  · rintro ⟨r, hr⟩
    obtain ⟨rfl, hparsed⟩ := ofLiteral_eq_ok_iff.mp hr
    exact ⟨r.tokens, hparsed⟩
  · rintro ⟨tokens, htokens⟩
    exact ⟨⟨text, tokens⟩, ofLiteral_eq_ok_iff.mpr ⟨rfl, htokens⟩⟩

/-- The error is that of the first template that cannot be read. -/
theorem ofLiterals_eq_error_iff {literals : List String} {e : InvalidRule} :
    ofLiterals literals = .error e ↔ ∃ before after, literals = before ++ e.literal :: after ∧
      (∀ text ∈ before, ∃ tokens, Template.parse text = .ok tokens) ∧
        Template.parse e.literal = .error e.error := by
  rw [inTurn_ofLiterals.eq_error_iff (i := 0)]
  simp only [exists_ofLiteral_iff, ofLiteral_eq_error_iff]
  constructor
  · rintro ⟨before, text, after, hliterals, hbefore, rfl, hparse⟩
    exact ⟨before, after, hliterals, hbefore, hparse⟩
  · rintro ⟨before, after, hliterals, hbefore, hparse⟩
    exact ⟨before, e.literal, after, hliterals, hbefore, rfl, hparse⟩

end Rule

/-! ### Groups -/

namespace Group

/-- Every rule of the group has the tokens of its template. -/
def Parsed (g : Group) : Prop := ∀ r ∈ g.rules, r.Parsed

/-- The data describe the group. -/
def Describes (d : Datum) (g : Group) : Prop :=
  ∃ parts, partsOfDatum d = .ok parts ∧
    ofLiterals parts.literals parts.tags parts.note = .ok g

/-- The group that is made of templates has the rules of them. -/
theorem ofLiterals_eq_ok_iff {literals : List String} {tags : Table String} {note : String}
    {g : Group} : ofLiterals literals tags note = .ok g ↔
      g.literals = literals ∧ g.Parsed ∧ g.tags = tags ∧ g.note = note := by
  unfold ofLiterals
  constructor
  · intro h
    cases hrules : Rule.ofLiterals literals with
    | error e =>
        rw [hrules] at h
        cases h
    | ok rules =>
        rw [hrules] at h
        cases h
        obtain ⟨hliterals, hparsed⟩ := Rule.ofLiterals_eq_ok_iff.mp hrules
        exact ⟨hliterals, hparsed, rfl, rfl⟩
  · rintro ⟨hliterals, hparsed, rfl, rfl⟩
    rw [Rule.ofLiterals_eq_ok_iff.mpr ⟨hliterals, hparsed⟩]
    rfl

theorem ofDatum_eq_ok_iff {index : Nat} {cognate : String} {d : Datum} {g : Group} :
    ofDatum index cognate d = .ok g ↔ Describes d g := by
  unfold ofDatum Describes
  cases partsOfDatum d with
  | error defect => simp
  | ok parts => simp [Answer.mapError_eq_ok_iff]

/-- The entries of the data of a group, where tags and note may be left out. -/
def partEntries (noTags noNote : Bool) (tags : List (String × String)) (note : String)
    (literals : List String) : List (String × Datum) :=
  (if noTags then [] else [("tags", .mapping (tags.map fun e => (e.1, .text e.2)))]) ++
  (if noNote then [] else [("note", .text note)]) ++
  [("rules", .list (literals.map .text))]

@[inherit_doc partEntries]
def describe (noTags noNote : Bool) (tags : List (String × String)) (note : String)
    (literals : List String) : Datum :=
  .mapping (partEntries noTags noNote tags note literals)

theorem toDatum_eq_describe (g : Group) :
    g.toDatum = describe g.tags.isEmpty g.note.isEmpty g.tags.entries g.note g.literals := by
  rw [toDatum, describe, partEntries, literals, List.map_map]
  rfl

theorem literalsOfData_map_text (literals : List String) :
    literalsOfData (literals.map .text) = .ok literals := by
  induction literals with
  | nil => rfl
  | cons literal literals ih =>
      rw [List.map_cons, literalsOfData, ih]
      rfl

theorem tagsOfEntries_map_text (tags : List (String × String)) :
    tagsOfEntries (tags.map fun e => (e.1, .text e.2)) = .ok tags := by
  induction tags with
  | nil => rfl
  | cons e tags ih =>
      rw [List.map_cons, tagsOfEntries, ih]
      rfl

section Describe

variable {noTags noNote : Bool} {tags : List (String × String)} {note : String}
variable {literals : List String}

theorem present?_tags :
    (describe noTags noNote tags note literals).present? "tags" =
      if noTags || tags.isEmpty then none
      else some (.mapping (tags.map fun e => (e.1, .text e.2))) := by
  cases noTags with
  | true => cases noNote <;> rfl
  | false => cases tags <;> rfl

/-- A note that is left out and one that is empty are the same. -/
theorem getD_present?_note :
    (((describe noTags noNote tags note literals).present? "note").map Datum.asText).getD "" =
      if noNote then "" else note := by
  cases noNote with
  | true => cases noTags <;> rfl
  | false =>
      have hget : (describe noTags false tags note literals).present? "note" =
          if note.isEmpty then none else some (.text note) := by
        cases noTags <;> rfl
      rw [hget]
      cases hempty : note.isEmpty with
      | true => exact (String.isEmpty_iff.mp hempty).symm
      | false => rfl

/-- The parts of a group that is described. -/
theorem partsOfDatum_describe :
    partsOfDatum (describe noTags noNote tags note literals) =
      .ok ⟨literals, Table.ofList (if noTags then [] else tags), if noNote then "" else note⟩ := by
  have hrules : (describe noTags noNote tags note literals).get? "rules" =
      some (.list (literals.map .text)) := by
    cases noTags <;> cases noNote <;> rfl
  obtain ⟨es, hes⟩ : ∃ es, describe noTags noNote tags note literals = .mapping es := ⟨_, rfl⟩
  have htags := @present?_tags noTags noNote tags note literals
  have hnote := @getD_present?_note noTags noNote tags note literals
  rw [hes] at hrules htags hnote ⊢
  simp only [partsOfDatum, hrules, htags, hnote, literalsOfData_map_text, bind, Except.bind]
  cases noTags with
  | true => rfl
  | false =>
      cases tags with
      | nil => rfl
      | cons e tags =>
          simp only [List.isEmpty_cons, Bool.or_false, Bool.false_eq_true, if_false,
            tagsOfEntries_map_text]
          rfl

/-- The group that is described has the parts, and rules of their templates. -/
theorem describes_describe_iff {g : Group} :
    Describes (describe noTags noNote tags note literals) g ↔
      g.literals = literals ∧ g.Parsed ∧ g.tags = Table.ofList (if noTags then [] else tags) ∧
        g.note = if noNote then "" else note := by
  unfold Describes
  rw [partsOfDatum_describe]
  simp only [Except.ok.injEq, exists_eq_left', ofLiterals_eq_ok_iff]

end Describe

/-- A group is described by its data. -/
theorem describes_toDatum {g : Group} (h : g.Parsed) : Describes g.toDatum g := by
  rw [toDatum_eq_describe, describes_describe_iff]
  refine ⟨rfl, h, ?_, ?_⟩
  · cases hempty : g.tags.isEmpty with
    | true => exact Table.ext (List.isEmpty_iff.mp hempty)
    | false => exact (Table.ofList_entries g.tags).symm
  · cases hempty : g.note.isEmpty with
    | true => exact String.isEmpty_iff.mp hempty
    | false => rfl

end Group

/-! ### Cognates -/

namespace Cognate

/-- Every rule of the cognate has the tokens of its template. -/
def Parsed (c : Cognate) : Prop := ∀ g ∈ c.groups, g.Parsed

theorem groupsOfData_cons (cognate : String) (index : Nat) (d : Datum) (ds : List Datum) :
    groupsOfData cognate index (d :: ds) = (Group.ofDatum index cognate d).bind fun g =>
      (groupsOfData cognate (index + 1) ds).map (g :: ·) := by
  rw [groupsOfData]
  cases Group.ofDatum index cognate d <;> rfl

theorem inTurn_groupsOfData (cognate : String) :
    Answer.InTurn Group.Describes (fun index => Group.ofDatum index cognate)
      (groupsOfData cognate) where
  item _ _ _ := Group.ofDatum_eq_ok_iff
  nil _ := rfl
  cons := groupsOfData_cons cognate

theorem groupsOfData_map_iff {f : Group → Datum} {groups : List Group} {cognate : String}
    {index : Nat} :
    groupsOfData cognate index (groups.map f) = .ok groups ↔
      ∀ g ∈ groups, Group.Describes (f g) g := by
  rw [(inTurn_groupsOfData cognate).eq_ok_iff, List.forall₂_map_left_iff, List.forall₂_same]

/-- The data of a cognate with the given name and data of groups. -/
def headed (name : String) (groups : List Datum) : Datum :=
  .mapping [("name", .text name), ("groups", .list groups)]

theorem headOfDatum_headed (name : String) (groups : List Datum) :
    headOfDatum (headed name groups) = .ok (name, groups) := by
  cases groups <;> rfl

theorem ofDatum_headed_iff {c : Cognate} {name : String} {f : Group → Datum} :
    ofDatum (headed name (c.groups.map f)) = .ok c ↔
      c.name = name ∧ ∀ g ∈ c.groups, Group.Describes (f g) g := by
  rw [← @groupsOfData_map_iff f c.groups name 0]
  simp only [ofDatum, headOfDatum_headed]
  cases groupsOfData name 0 (c.groups.map f) with
  | error e => simp [Except.map]
  | ok groups =>
      cases c with
      | mk n gs => simp [Except.map, eq_comm]

theorem ofDatum_toDatum {c : Cognate} (h : c.Parsed) : ofDatum c.toDatum = .ok c :=
  ofDatum_headed_iff.mpr ⟨rfl, fun g hm => Group.describes_toDatum (h g hm)⟩

theorem listOfData_cons (d : Datum) (ds : List Datum) :
    listOfData (d :: ds) = (ofDatum d).bind fun c => (listOfData ds).map (c :: ·) := by
  rw [listOfData]
  cases ofDatum d <;> rfl

theorem inTurn_listOfData : Answer.InTurn (fun d c => ofDatum d = .ok c) (fun _ => ofDatum)
    fun _ => listOfData where
  item _ _ _ := Iff.rfl
  nil _ := rfl
  cons _ := listOfData_cons

/-- Cognates are described one after the other. -/
theorem listOfData_map_iff {f : Cognate → Datum} {cs : List Cognate} :
    listOfData (cs.map f) = .ok cs ↔ ∀ c ∈ cs, ofDatum (f c) = .ok c := by
  rw [inTurn_listOfData.eq_ok_iff (i := 0), List.forall₂_map_left_iff, List.forall₂_same]

end Cognate

end TaggedGrammar
