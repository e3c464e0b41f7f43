import TaggedGrammar.Proofs.Document.RoundTrip

/-!
# Cognates come back from their data

The builders make exactly the cognates of parsed rules. Reading data gives such cognates too,
whatever scalars stood for texts and whatever was left out. Turned into data, a cognate of parsed
rules has one shape only, and that is read as the same cognate again: the groups, tags and rules
in their order, and the tokens of every rule.

## Main statements

* `Cognate.built_iff_parsed`: which cognates can be built.
* `Cognate.parsed_of_ofDatum`: which cognates are read.
* `Cognate.inverse_toDatum`: cognates, lists of them and grammars come back from their data.
-/

namespace TaggedGrammar

/-! ### What builders make -/

namespace Group

/-- The changes that can be made to a group. -/
inductive Edits : (Group → Except InvalidRule Group) → Prop where
  | addRule (literal : String) : Edits fun g => g.addRule literal
  | addRules (literals : List String) : Edits fun g => g.addRules literals
  | setTag (key value : String) : Edits fun g => .ok (g.setTag key value)

theorem Edits.parsed {f : Group → Except InvalidRule Group} (hf : Edits f) {g edited : Group}
    (hg : g.Parsed) (h : f g = .ok edited) : edited.Parsed := by
  cases hf with
  | addRule literal =>
      obtain ⟨rule, hrule, rfl⟩ := Answer.map_eq_ok_iff.mp h
      have hparsed : rule.Parsed := (Rule.ofLiteral_eq_ok_iff.mp hrule).2
      exact List.forall_mem_append.mpr ⟨hg, List.forall_mem_singleton.mpr hparsed⟩
  | addRules literals =>
      obtain ⟨rules, hrules, rfl⟩ := Answer.map_eq_ok_iff.mp h
      exact List.forall_mem_append.mpr ⟨hg, (Rule.ofLiterals_eq_ok_iff.mp hrules).2⟩
  | setTag key value =>
      cases h
      exact hg

end Group

namespace Cognate

/-- The cognates that can be built. -/
inductive Built : Cognate → Prop where
  | ofName (name : String) : Built (.ofName name)
  | addGroup {c : Cognate} (h : Built c) (tags : Table String) (note : String) :
      Built (c.addGroup (.ofTags tags note))
  | groupFromRules {c made : Cognate} {literals : List String} {tags : Table String}
      {note : String} (h : Built c) (made_eq : c.groupFromRules literals tags note = .ok made) :
      Built made
  | editGroup {c edited : Cognate} {i : Nat} {f : Group → Except InvalidRule Group} (h : Built c)
      (edits : Group.Edits f) (edited_eq : c.editGroup i f = .ok edited) : Built edited

theorem Parsed.addGroup {c : Cognate} (h : c.Parsed) {g : Group} (hg : g.Parsed) :
    (c.addGroup g).Parsed :=
  List.forall_mem_append.mpr ⟨h, List.forall_mem_singleton.mpr hg⟩

theorem Parsed.editGroup {c edited : Cognate} (h : c.Parsed) {i : Nat}
    {f : Group → Except InvalidRule Group} (hf : Group.Edits f)
    (he : c.editGroup i f = .ok edited) : edited.Parsed := by
  unfold Cognate.editGroup at he
  split at he
  · rename_i g hg
    obtain ⟨changed, hchanged, rfl⟩ := Answer.map_eq_ok_iff.mp he
    have hparsed : changed.Parsed := hf.parsed (h g (List.mem_of_getElem? hg)) hchanged
    intro other ho
    rcases List.mem_or_eq_of_mem_set ho with ho | rfl
    · exact h other ho
    · exact hparsed
  · cases he
    exact h

theorem Built.parsed {c : Cognate} (h : c.Built) : c.Parsed := by
  induction h with
  | ofName name => exact nofun
  | addGroup _ tags note ih => exact ih.addGroup (g := .ofTags tags note) nofun
  | groupFromRules _ made_eq ih =>
      obtain ⟨g, hg, rfl⟩ := Answer.map_eq_ok_iff.mp made_eq
      exact ih.addGroup (Group.ofLiterals_eq_ok_iff.mp hg).2.1
  | editGroup _ edits edited_eq ih => exact ih.editGroup edits edited_eq

/-- Groups of parsed rules are made of their templates, one after the other. -/
theorem built_of_parsed {name : String} {groups : List Group} (h : ∀ g ∈ groups, g.Parsed) :
    Built ⟨name, groups⟩ := by
  induction groups using List.reverseRecOn with
  | nil => exact .ofName name
  | append_singleton groups g ih =>
      obtain ⟨hgroups, hlast⟩ := List.forall_mem_append.mp h
      have hg : g.Parsed := hlast g (List.mem_singleton_self g)
      have hmade : groupFromRules ⟨name, groups⟩ g.literals g.tags g.note =
          .ok ⟨name, groups ++ [g]⟩ := by
        rw [groupFromRules, Group.ofLiterals_eq_ok_iff.mpr ⟨rfl, hg, rfl, rfl⟩]
        rfl
      exact .groupFromRules (ih hgroups) hmade

/-- The builders make the cognates of parsed rules, and no others. -/
theorem built_iff_parsed {c : Cognate} : c.Built ↔ c.Parsed :=
  ⟨Built.parsed, built_of_parsed⟩

end Cognate

/-! ### What is read of data -/

theorem Group.Describes.parsed {d : Datum} {g : Group} (h : Describes d g) : g.Parsed := by
  obtain ⟨parts, -, hparts⟩ := h
  exact (ofLiterals_eq_ok_iff.mp hparts).2.1

namespace Cognate

/-- A cognate that is read has parsed rules. -/
theorem parsed_of_ofDatum {d : Datum} {c : Cognate} (h : ofDatum d = .ok c) : c.Parsed := by
  unfold ofDatum at h
  split at h
  · cases h
  · obtain ⟨groups, hgroups, rfl⟩ := Answer.map_eq_ok_iff.mp h
    intro g hg
    obtain ⟨d, hd⟩ := (inTurn_groupsOfData _).exists_item hgroups g hg
    exact hd.parsed

end Cognate

/-! ### Grammars of cognates -/

namespace Grammar

theorem mem_toList_insert {g : Grammar} {c other : Cognate} (h : other ∈ (g.insert c).toList) :
    other ∈ g.toList ∨ other = c := by
  obtain ⟨e, he, rfl⟩ := List.mem_map.mp h
  rcases Table.mem_entries_insert he with rfl | he
  · exact Or.inr rfl
  · exact Or.inl (List.mem_map_of_mem he)

theorem mem_toList_insertMany {g : Grammar} {cs : List Cognate} {c : Cognate}
    (h : c ∈ (g.insertMany cs).toList) : c ∈ g.toList ∨ c ∈ cs := by
  induction cs generalizing g with
  | nil => exact Or.inl h
  | cons first rest ih =>
      rcases ih h with h | h
      · rcases mem_toList_insert h with h | rfl
        · exact Or.inl h
        · exact Or.inr List.mem_cons_self
      · exact Or.inr (List.mem_cons_of_mem first h)

theorem mem_of_mem_ofCognates {cs : List Cognate} {asked : Int} {c : Cognate}
    (h : c ∈ (ofCognates cs asked).toList) : c ∈ cs :=
  (mem_toList_insertMany h).resolve_left nofun

/-- The cognates that a grammar was made of, less those that were replaced, make it again. -/
theorem insertMany_toList_ofCognates (cs : List Cognate) (asked : Int) :
    (ofDepth asked).insertMany (ofCognates cs asked).toList = ofCognates cs asked := by
  have hdepth : (ofCognates cs asked).maxDepth = effectiveDepth asked :=
    maxDepth_insertMany (ofDepth asked) cs
  rw [(named_ofCognates cs asked).insertMany_toList asked, ← hdepth]

end Grammar

/-! ### There and back -/

namespace Cognate

theorem listOfData_toDatum {cs : List Cognate} (h : ∀ c ∈ cs, c.Parsed) :
    listOfData (cs.map toDatum) = .ok cs :=
  listOfData_map_iff.mpr fun c hm => ofDatum_toDatum (h c hm)

/-- A cognate that was built is read back from its data. The data of a list of cognates, in which
names may be repeated, fill a grammar as the cognates themselves do, and so do the data of the
cognates in a grammar. And whatever data a cognate was read from, it is read back from its own. -/
theorem inverse_toDatum :
    (∀ c : Cognate, c.Built → ofDatum c.toDatum = .ok c) ∧
      (∀ cs : List Cognate, (∀ c ∈ cs, c.Built) →
        (∀ g : Grammar, (listOfData (cs.map toDatum)).map g.insertMany = .ok (g.insertMany cs)) ∧
        ∀ asked, (listOfData ((Grammar.ofCognates cs asked).toList.map toDatum)).map
          (Grammar.ofDepth asked).insertMany = .ok (.ofCognates cs asked)) ∧
      ∀ (d : Datum) (c : Cognate), ofDatum d = .ok c → ofDatum c.toDatum = .ok c := by
  refine ⟨fun c h => ofDatum_toDatum h.parsed, ?_, fun d c h => ofDatum_toDatum ?_⟩
  · intro cs hcs
    constructor
    · intro g
      rw [listOfData_toDatum fun c hm => (hcs c hm).parsed]
      rfl
    · intro asked
      have hparsed : ∀ c ∈ (Grammar.ofCognates cs asked).toList, c.Parsed := fun c hm =>
        (hcs c (Grammar.mem_of_mem_ofCognates hm)).parsed
      rw [listOfData_toDatum hparsed]
      exact congrArg Except.ok (Grammar.insertMany_toList_ofCognates cs asked)
  · exact parsed_of_ofDatum h

/-- Songs of which the first is replaced, with a group that is empty in all of its parts. -/
def revisedSongs : List Cognate :=
  songs ++ [⟨"song:\n in two lines", [⟨[], ∅, ""⟩, ⟨[], ∅, "hummed"⟩]⟩]

/-- The data of a cognate with scalars of all kinds, without tags, and with a note that counts as
missing. -/
def looseDatum : Datum :=
  .mapping [("groups", .list [.mapping [("note", .integer 0),
    ("rules", .list [.flag true, .null, .text "la"])]]), ("name", .integer (-7)),
    ("key", .list [])]

theorem inverse_revisedSongs :
    (∀ c ∈ revisedSongs, c.Built) ∧
      (listOfData (revisedSongs.map toDatum)).map (Grammar.ofDepth 3).insertMany =
        .ok (.ofCognates revisedSongs 3) ∧
      (listOfData ((Grammar.ofCognates revisedSongs 3).toList.map toDatum)).map
        (Grammar.ofDepth 3).insertMany = .ok (.ofCognates revisedSongs 3) ∧
      ∃ c, ofDatum looseDatum = .ok c ∧ ofDatum c.toDatum = .ok c := by
  have hbuilt : ∀ c ∈ revisedSongs, c.Built := by
    have hrule : Rule.Parsed ⟨"la # la", [.literal "la # la"]⟩ := rfl
    simp only [revisedSongs, songs, List.cons_append, List.nil_append, built_iff_parsed,
      Cognate.Parsed, Group.Parsed, List.forall_mem_cons, List.not_mem_nil, false_implies,
      implies_true, and_true]
    exact hrule
  obtain ⟨-, hlists, hdata⟩ := inverse_toDatum
  have hloose : ofDatum looseDatum = .ok ⟨"-7", [⟨[⟨"True", [.literal "True"]⟩,
      ⟨"None", [.literal "None"]⟩, ⟨"la", [.literal "la"]⟩], ∅, ""⟩]⟩ := rfl
  exact ⟨hbuilt, (hlists revisedSongs hbuilt).1 _, (hlists revisedSongs hbuilt).2 3, _, hloose,
    hdata looseDatum _ hloose⟩

end Cognate

end TaggedGrammar
