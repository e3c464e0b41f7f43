import TaggedGrammar.Proofs.Document.Cognate
import TaggedGrammar.Proofs.Yaml.Nesting

/-!
# Cognates of texts that are read back

What is read of a written cognate is the data of a cognate with other texts, so the cognate itself
is read back if and only if each of its texts is and every key of a tag reaches its colon.

## Main statements

* `Group.recalledDatum_describe`, `Cognate.recalledDatum_toDatum`: what is read of written data.
* `Group.storable_iff`, `Cognate.storable_iff`: when a group and a cognate are read back.

## Implementation notes

Two keys of tags may be read as the same one. Then there are fewer tags than before, which is why
the tags that are read are compared as tables.
-/

namespace TaggedGrammar

open Yaml

/-! ### Cognates of texts that are read back -/

/-- Every text of the group is read back. -/
structure Group.Storable (g : Group) : Prop where
  tags : ∀ e ∈ g.tags.entries, KeepsKey e.1.toList ∧ KeepsText false e.2.toList
  note : KeepsText false g.note.toList
  rules : ∀ r ∈ g.rules, KeepsText false r.literal.toList

/-- Every text of the cognate is read back. -/
structure Cognate.Storable (c : Cognate) : Prop where
  name : KeepsText false c.name.toList
  groups : ∀ g ∈ c.groups, g.Storable

/-! ### Mappings of parts -/

/-- The names of the parts of cognates and groups. -/
def partNames : List String := ["name", "groups", "tags", "note", "rules"]

theorem keepsKey_of_mem_partNames {k : String} (h : k ∈ partNames) :
    KeepsKey k.toList ∧ isSimpleKey k.toList = true := by
  have hshort : ∀ k ∈ partNames,
      '\u0085' ∉ k.toList ∧ k.toList.length ≤ 102 ∧ isSimpleKey k.toList = true := by decide
  obtain ⟨hn, hlength, hsimple⟩ := hshort k h
  exact ⟨keepsKey_of_length_le hn hlength, hsimple⟩

section Parts

variable {es : List (String × Datum)}

theorem recalledDatum_parts (hnodup : (es.map Prod.fst).Nodup) (hes : ∀ e ∈ es, e.1 ∈ partNames) :
    recalledDatum (.mapping es) = .mapping (es.map fun e => (e.1, recalledDatum e.2)) := by
  have hmap : recalledEntries es = es.map fun e => (e.1, recalledDatum e.2) := by
    rw [recalledEntries_eq_map]
    refine List.map_congr_left fun e hm => Prod.ext ?_ rfl
    exact recalled_eq_self_iff.mpr (keepsKey_of_mem_partNames (hes e hm)).1.1
  have hentries : (Table.ofList (recalledEntries es)).entries = recalledEntries es := by
    refine Table.entries_insertMany_of_nodup ?_
    rw [hmap]
    simpa [Table.empty, Function.comp_def] using hnodup
  rw [recalledDatum, hentries, hmap]

theorem reachable_parts_iff (hes : ∀ e ∈ es, e.1 ∈ partNames) :
    Reachable (.mapping es) ↔ ∀ e ∈ es, Reachable e.2 :=
  reachableEntries_iff.trans ⟨fun h e hm => (h e hm).2,
    fun h e hm => ⟨(keepsKey_of_mem_partNames (hes e hm)).1.2, h e hm⟩⟩

theorem hasRoom_parts {loose : Bool} {i : Nat} (hes : ∀ e ∈ es, e.1 ∈ partNames)
    (hwidth : i + indentStep + indentStep < lineWidth)
    (h : ∀ e ∈ es, HasRoom true (i + indentStep) e.2) : HasRoom loose i (.mapping es) := by
  refine hasRoomEntries_iff.mpr ⟨hwidth, fun e hm => ?_⟩
  rw [(keepsKey_of_mem_partNames (hes e hm)).2]
  exact h e hm

end Parts

/-! ### Groups as data -/

/-- What is read of a tag. -/
def recalledTag (e : String × String) : String × String :=
  (recalled (isSimpleKey e.1.toList) e.1, recalled false e.2)

theorem recalledDatum_tags (tags : List (String × String)) :
    recalledDatum (.mapping (tags.map fun e => (e.1, .text e.2))) =
      .mapping ((Table.ofList (tags.map recalledTag)).entries.map fun e => (e.1, .text e.2)) := by
  have hmap : recalledEntries (tags.map fun e => (e.1, .text e.2)) =
      (tags.map recalledTag).map fun e => (e.1, .text e.2) := by
    rw [recalledEntries_eq_map, List.map_map, List.map_map]
    rfl
  rw [recalledDatum, hmap, Table.ofList_mapValues]
  rfl

theorem map_eq_self_iff {α : Type} {f : α → α} {xs : List α} :
    xs.map f = xs ↔ ∀ x ∈ xs, f x = x := by
  simpa using List.map_inj_left (f := f) (g := id) (l := xs)

namespace Group

section Describe

variable {noTags noNote : Bool} {tags : List (String × String)} {note : String}
variable {literals : List String}

theorem nodup_partEntries :
    ((partEntries noTags noNote tags note literals).map Prod.fst).Nodup := by
  cases noTags <;> cases noNote <;> simp [partEntries]

theorem mem_partNames_of_mem_partEntries :
    ∀ e ∈ partEntries noTags noNote tags note literals, e.1 ∈ partNames := by
  cases noTags <;> cases noNote <;> simp [partEntries, partNames]

/-- What is read of a group is the data of a group with other texts. -/
theorem recalledDatum_describe :
    recalledDatum (describe noTags noNote tags note literals) =
      describe noTags noNote (Table.ofList (tags.map recalledTag)).entries (recalled false note)
        (literals.map (recalled false)) := by
  have hrules : recalledDatum (.list (literals.map .text)) =
      .list ((literals.map (recalled false)).map .text) := by
    rw [recalledDatum, recalledItems_eq_map, List.map_map, List.map_map]
    rfl
  have hnote : recalledDatum (.text note) = .text (recalled false note) := rfl
  rw [describe, recalledDatum_parts nodup_partEntries mem_partNames_of_mem_partEntries,
    describe, partEntries, partEntries]
  cases noTags <;> cases noNote <;> simp only [if_true, if_false, Bool.false_eq_true,
    List.nil_append, List.cons_append, List.map_cons, List.map_nil, recalledDatum_tags, hrules,
    hnote]

theorem reachable_describe_iff :
    Reachable (describe noTags noNote tags note literals) ↔
      (noTags = false → ∀ e ∈ tags, ReachesColon e.1.toList) := by
  have htags : Reachable (.mapping (tags.map fun e => (e.1, .text e.2))) ↔
      ∀ e ∈ tags, ReachesColon e.1.toList := by
    rw [Reachable, reachableEntries_iff, List.forall_mem_map]
    simp [Reachable]
  have hrules : Reachable (.list (literals.map .text)) :=
    reachableItems_iff.mpr (List.forall_mem_map.mpr fun r _ => trivial)
  have hnote : Reachable (.text note) := trivial
  rw [describe, reachable_parts_iff mem_partNames_of_mem_partEntries]
  cases noTags <;> cases noNote <;> simp [partEntries, htags, hrules, hnote]

theorem hasRoom_describe : HasRoom false 2 (describe noTags noNote tags note literals) := by
  have htags : HasRoom true 4 (.mapping (tags.map fun e => (e.1, .text e.2))) :=
    hasRoomEntries_iff.mpr ⟨by decide, List.forall_mem_map.mpr fun e _ => (by decide : 8 < 80)⟩
  have hrules : HasRoom true 4 (.list (literals.map .text)) :=
    hasRoomItems_iff.mpr (List.forall_mem_map.mpr fun r _ => (by decide : 6 < 80))
  have hnote : HasRoom true 4 (.text note) := (by decide : 6 < 80)
  refine hasRoom_parts mem_partNames_of_mem_partEntries (by decide) ?_
  cases noTags <;> cases noNote <;> simp [partEntries, htags, hrules, hnote, indentStep]

end Describe

/-- A group is read back if all of its texts are. -/
theorem storable_iff {g : Group} (h : g.Parsed) :
    g.Storable ↔ Describes (recalledDatum g.toDatum) g ∧ Reachable g.toDatum := by
  have hliterals : g.literals = g.literals.map (recalled false) ↔
      ∀ r ∈ g.rules, KeepsText false r.literal.toList := by
    rw [eq_comm, map_eq_self_iff, literals, List.forall_mem_map]
    simp only [recalled_eq_self_iff]
  have htags : g.tags = Table.ofList (if g.tags.isEmpty then [] else
      (Table.ofList (g.tags.entries.map recalledTag)).entries) ↔
      ∀ e ∈ g.tags.entries, KeepsText (isSimpleKey e.1.toList) e.1.toList ∧
        KeepsText false e.2.toList := by
    have hsame : Table.ofList (if g.tags.isEmpty then [] else
        (Table.ofList (g.tags.entries.map recalledTag)).entries) =
        Table.ofList (g.tags.entries.map recalledTag) := by
      cases hempty : g.tags.isEmpty with
      | true =>
          rw [List.isEmpty_iff.mp hempty]
          rfl
      | false => exact Table.ofList_entries _
    rw [hsame, eq_comm, Table.ofList_eq_iff (List.length_map _), map_eq_self_iff]
    simp only [recalledTag, Prod.ext_iff, recalled_eq_self_iff]
  have hnote : (g.note = if g.note.isEmpty then "" else recalled false g.note) ↔
      KeepsText false g.note.toList := by
    cases hempty : g.note.isEmpty with
    | true =>
        rw [String.isEmpty_iff.mp hempty]
        simp [KeepsText]
    | false =>
        rw [eq_comm]
        exact recalled_eq_self_iff
  have hreach : (g.tags.isEmpty = false → ∀ e ∈ g.tags.entries, ReachesColon e.1.toList) ↔
      ∀ e ∈ g.tags.entries, ReachesColon e.1.toList := by
    cases hempty : g.tags.isEmpty with
    | true => simp [List.isEmpty_iff.mp hempty]
    | false => simp
  rw [toDatum_eq_describe, recalledDatum_describe, describes_describe_iff, reachable_describe_iff,
    hliterals, htags, hnote, hreach]
  constructor
  · rintro ⟨ht, hn, hr⟩
    exact ⟨⟨hr, h, fun e hm => ⟨(ht e hm).1.1, (ht e hm).2⟩, hn⟩, fun e hm => (ht e hm).1.2⟩
  · rintro ⟨⟨hr, -, ht, hn⟩, hk⟩
    exact ⟨fun e hm => ⟨⟨(ht e hm).1, hk e hm⟩, (ht e hm).2⟩, hn, hr⟩

end Group

/-! ### Cognates as data -/

namespace Cognate

theorem mem_partNames_of_mem_headed {name : String} {groups : List Datum} :
    ∀ e ∈ [("name", Datum.text name), ("groups", Datum.list groups)], e.1 ∈ partNames := by
  simp [partNames]

theorem recalledDatum_toDatum (c : Cognate) :
    recalledDatum c.toDatum =
      headed (recalled false c.name) (c.groups.map fun g => recalledDatum g.toDatum) := by
  rw [toDatum, recalledDatum_parts (by simp) mem_partNames_of_mem_headed]
  simp [headed, recalledDatum, recalledItems_eq_map, Function.comp_def]

theorem reachable_toDatum_iff (c : Cognate) :
    Reachable c.toDatum ↔ ∀ g ∈ c.groups, Reachable g.toDatum := by
  rw [toDatum, reachable_parts_iff mem_partNames_of_mem_headed]
  simp [Reachable, reachableItems_iff]

/-- A cognate is read back if all of its texts are. -/
theorem storable_iff {c : Cognate} (h : c.Parsed) :
    c.Storable ↔ ofDatum (recalledDatum c.toDatum) = .ok c ∧ Reachable c.toDatum := by
  rw [recalledDatum_toDatum, ofDatum_headed_iff, eq_comm, recalled_eq_self_iff,
    reachable_toDatum_iff]
  constructor
  · rintro ⟨hname, hgroups⟩
    exact ⟨⟨hname, fun g hm => ((Group.storable_iff (h g hm)).mp (hgroups g hm)).1⟩,
      fun g hm => ((Group.storable_iff (h g hm)).mp (hgroups g hm)).2⟩
  · rintro ⟨⟨hname, hdescribes⟩, hreach⟩
    exact ⟨hname, fun g hm => (Group.storable_iff (h g hm)).mpr ⟨hdescribes g hm, hreach g hm⟩⟩

theorem hasRoom_toDatum (c : Cognate) : HasRoom false 0 c.toDatum := by
  have hname : HasRoom true 2 (.text c.name) := (by decide : 4 < 80)
  have hgroups : HasRoom true 2 (.list (c.groups.map Group.toDatum)) := by
    refine hasRoomItems_iff.mpr (List.forall_mem_map.mpr fun g _ => ?_)
    rw [Group.toDatum_eq_describe]
    exact Group.hasRoom_describe
  refine hasRoom_parts mem_partNames_of_mem_headed (by decide) ?_
  simp [hname, hgroups, indentStep]

end Cognate

end TaggedGrammar
