import TaggedGrammar.Document.Basic
import TaggedGrammar.Proofs.Document.Storable
import TaggedGrammar.Proofs.Grammar.Parsed

/-!
# Documents that are read back

Cognates that are written as a document are read back from it as they were: names, groups, tags,
notes and rules in their order, character for character. Two things are excepted. A text that is
written between single quotes and holds the line end U+0085 is read with another in its place, and
a key that is written on the line of its colon in more than 1024 characters is not found there.

## Main statements

* `Document.read_write_eq_ok_iff`, `Document.read_write_ne_ok`: a list of cognates.
* `Grammar.Named.insertMany_toList`, `Grammar.Named.insertMany_eq_iff`: a grammar and its cognates.
* `Document.restores`: everything that is saved and loaded.
-/

namespace TaggedGrammar

open Yaml

/-! ### Documents -/

namespace Document

section RoundTrip

variable {cs : List Cognate}

theorem hasRoomItems_map_toDatum (cs : List Cognate) : HasRoomItems 0 (cs.map Cognate.toDatum) :=
  hasRoomItems_iff.mpr (List.forall_mem_map.mpr fun c _ => c.hasRoom_toDatum)

/-- What is read of a written document, unless it is refused. -/
theorem read_write (hreach : ∀ c ∈ cs, Reachable c.toDatum) :
    read (write cs) = Cognate.listOfData (cs.map fun c => recalledDatum c.toDatum) := by
  have hdatum := datum_writeList (hasRoomItems_map_toDatum cs)
    (reachableItems_iff.mpr (List.forall_mem_map.mpr hreach))
  rw [recalledItems_eq_map, List.map_map] at hdatum
  rw [read, write, hdatum]
  rfl

theorem read_write_ne_ok (hreach : ¬∀ c ∈ cs, Reachable c.toDatum) (found : List Cognate) :
    read (write cs) ≠ .ok found := by
  intro hread
  have hitems : ¬ReachableItems (cs.map Cognate.toDatum) := fun h =>
    hreach (List.forall_mem_map.mp (reachableItems_iff.mp h))
  rw [read, write] at hread
  cases hdatum : datum (writeList (cs.map Cognate.toDatum)) with
  | error e =>
      rw [hdatum] at hread
      cases hread
  | ok d => exact datum_writeList_ne_ok (hasRoomItems_map_toDatum cs) hitems hdatum

/-- Cognates are read back if and only if all of their texts are. -/
theorem read_write_eq_ok_iff (hparsed : ∀ c ∈ cs, c.Parsed) :
    read (write cs) = .ok cs ↔ ∀ c ∈ cs, c.Storable := by
  by_cases hreach : ∀ c ∈ cs, Reachable c.toDatum
  · rw [read_write hreach, Cognate.listOfData_map_iff]
    refine forall₂_congr fun c hm => ?_
    rw [Cognate.storable_iff (hparsed c hm)]
    exact (and_iff_left (hreach c hm)).symm
  · constructor
    · exact fun hread => absurd hread (read_write_ne_ok hreach cs)
    · exact fun h => absurd (fun c hm => ((Cognate.storable_iff (hparsed c hm)).mp (h c hm)).2)
        hreach

/-- As many cognates are read as were written. -/
theorem length_of_read_write {found : List Cognate} (h : read (write cs) = .ok found) :
    found.length = cs.length := by
  by_cases hreach : ∀ c ∈ cs, Reachable c.toDatum
  · rw [read_write hreach] at h
    rw [Cognate.inTurn_listOfData.length_eq (i := 0) h, List.length_map]
  · exact absurd h (read_write_ne_ok hreach found)

/-- The reading of a file changes nothing in a written document. -/
theorem readStored_write (cs : List Cognate) : readStored (write cs) = read (write cs) := by
  have hreturn : '\r' ∉ (write cs).toList := fun hm =>
    (isAllowed_of_mem_writeList (hasRoomItems_map_toDatum cs) '\r' hm).2 rfl
  rw [readStored, Text.unifyLines_of_not_mem hreturn, String.ofList_toList]

end RoundTrip

end Document

/-! ### Grammars -/

namespace Grammar

/-- Every cognate stands under its own name. -/
def Named (g : Grammar) : Prop := ∀ e ∈ g.cognates.entries, e.2.name = e.1

theorem cognates_insertMany (g : Grammar) (cs : List Cognate) :
    (g.insertMany cs).cognates = g.cognates.insertMany (cs.map fun c => (c.name, c)) := by
  induction cs generalizing g with
  | nil => rfl
  | cons c cs ih => exact ih (g.insert c)

theorem maxDepth_insertMany (g : Grammar) (cs : List Cognate) :
    (g.insertMany cs).maxDepth = g.maxDepth := by
  induction cs generalizing g with
  | nil => rfl
  | cons c cs ih => exact ih (g.insert c)

theorem Named.insert {g : Grammar} (h : g.Named) (c : Cognate) : (g.insert c).Named := by
  intro e hm
  have hmem : (g.insert c).cognates.get? e.1 = some e.2 := Table.get?_eq_some_iff.mpr hm
  by_cases he : e.1 = c.name
  · rw [Grammar.insert, he, Table.get?_insert_self] at hmem
    rw [← Option.some.inj hmem, he]
  · rw [Grammar.insert, Table.get?_insert_of_ne he] at hmem
    exact h e (Table.get?_eq_some_iff.mp hmem)

theorem Named.insertMany {g : Grammar} (h : g.Named) (cs : List Cognate) :
    (g.insertMany cs).Named := by
  induction cs generalizing g with
  | nil => exact h
  | cons c cs ih => exact ih (h.insert c)

/-- A grammar that is made of cognates holds them under their names. -/
theorem named_ofCognates (cs : List Cognate) (asked : Int) : (ofCognates cs asked).Named :=
  Named.insertMany (g := ofDepth asked) nofun cs

/-- The cognates of a grammar make the same grammar again, but for its limit. -/
theorem Named.insertMany_toList {g : Grammar} (h : g.Named) (asked : Int) :
    (ofDepth asked).insertMany g.toList = { g with maxDepth := effectiveDepth asked } := by
  have hentries : (g.toList.map fun c => (c.name, c)) = g.cognates.entries := by
    calc (g.toList.map fun c => (c.name, c))
        = g.cognates.entries.map fun e => (e.2.name, e.2) := List.map_map
      _ = g.cognates.entries.map id := List.map_congr_left fun e hm => Prod.ext (h e hm) rfl
      _ = g.cognates.entries := List.map_id _
  have hcognates : ((ofDepth asked).insertMany g.toList).cognates = g.cognates := by
    rw [cognates_insertMany, hentries]
    exact Table.ofList_entries g.cognates
  have hdepth := maxDepth_insertMany (ofDepth asked) g.toList
  rw [← hcognates]
  cases hg : (ofDepth asked).insertMany g.toList with
  | mk cognates maxDepth =>
      rw [hg] at hdepth
      exact congrArg (Grammar.mk cognates) hdepth

/-- Of as many cognates as a grammar has, only its own make it again. -/
theorem Named.insertMany_eq_iff {g : Grammar} (h : g.Named) {asked : Int} {cs : List Cognate}
    (hlength : cs.length = g.toList.length) :
    (ofDepth asked).insertMany cs = { g with maxDepth := effectiveDepth asked } ↔
      cs = g.toList := by
  constructor
  · intro he
    have hcognates := congrArg Grammar.cognates he
    rw [cognates_insertMany] at hcognates
    have hentries : (cs.map fun c => (c.name, c)) = g.cognates.entries := by
      refine (Table.ofList_eq_iff ?_).mp hcognates
      rw [List.length_map, hlength]
      exact List.length_map _
    have hvalues := congrArg (List.map Prod.snd) hentries
    rw [List.map_map] at hvalues
    exact (List.map_id cs).symm.trans hvalues
  · rintro rfl
    exact h.insertMany_toList asked

/-- Making a grammar of what was read gives it again just if its cognates were read. -/
theorem Named.map_insertMany_eq_ok_iff {g : Grammar} (h : g.Named) {asked : Int}
    {r : Except DocumentError (List Cognate)}
    (hlength : ∀ cs, r = .ok cs → cs.length = g.toList.length) :
    r.map (ofDepth asked).insertMany = .ok { g with maxDepth := effectiveDepth asked } ↔
      r = .ok g.toList := by
  cases r with
  | error e => simp [Except.map]
  | ok cs =>
      simp only [Except.map, Except.ok.injEq]
      exact h.insertMany_eq_iff (hlength cs rfl)

end Grammar

/-- What is written is read back, from a text and from a file, if and only if every text of the
cognates is: the cognates in order, and a grammar that holds them. -/
theorem Document.restores (cs : List Cognate) (hparsed : ∀ c ∈ cs, c.Parsed) :
    (read (write cs) = .ok cs ↔ ∀ c ∈ cs, c.Storable) ∧
      (readStored (write cs) = .ok cs ↔ ∀ c ∈ cs, c.Storable) ∧
      ∀ (g : Grammar) (asked : Int), g.Named → g.toList = cs →
        ((Grammar.ofDepth asked).load (write g.toList) =
          .ok { g with maxDepth := Grammar.effectiveDepth asked } ↔ ∀ c ∈ cs, c.Storable) ∧
        ((readStored (write g.toList)).map (Grammar.ofDepth asked).insertMany =
          .ok { g with maxDepth := Grammar.effectiveDepth asked } ↔ ∀ c ∈ cs, c.Storable) := by
  have hread := read_write_eq_ok_iff hparsed
  rw [readStored_write]
  refine ⟨hread, hread, ?_⟩
  rintro g asked hnamed rfl
  rw [readStored_write, Grammar.load,
    hnamed.map_insertMany_eq_ok_iff fun _ hfound => length_of_read_write hfound]
  exact ⟨hread, hread⟩

/-- Songs whose texts hold line ends, quotes and control characters, with a key that does not stand
on the line of its colon. -/
def songs : List Cognate :=
  [⟨"song:\n in two lines", [⟨[⟨"la # la", [.literal "la # la"]⟩],
    Table.insert ∅ "- mood\u2028" "\t'glad' ", "sung\x07\r\n\n - twice"⟩]⟩, ⟨"", []⟩]

theorem Document.restores_songs :
    read (write songs) = .ok songs ∧ readStored (write songs) = .ok songs ∧
      (Grammar.ofDepth 100).load (write (Grammar.ofCognates songs 3).toList) =
        .ok { Grammar.ofCognates songs 3 with maxDepth := 100 } := by
  have hlist : (Grammar.ofCognates songs 3).toList = songs := rfl
  have hparsed : ∀ c ∈ songs, c.Parsed := by
    have hrule : Rule.Parsed ⟨"la # la", [.literal "la # la"]⟩ := rfl
    simp only [songs, Cognate.Parsed, Group.Parsed, List.forall_mem_cons, List.not_mem_nil,
      false_implies, implies_true, and_true]
    exact hrule
  have hkey : KeepsKey "- mood\u2028".toList := keepsKey_of_length_le (by decide) (by decide)
  have hstorable : ∀ c ∈ songs, c.Storable := by
    refine List.forall_mem_cons.mpr ⟨⟨fun _ => by decide, ?_⟩, ?_⟩
    · refine List.forall_mem_singleton.mpr ⟨?_, fun _ => by decide, ?_⟩
      · exact List.forall_mem_singleton.mpr ⟨hkey, fun _ => by decide⟩
      · exact List.forall_mem_singleton.mpr fun _ => by decide
    · exact List.forall_mem_singleton.mpr ⟨fun _ => by decide, nofun⟩
  have hnamed : (Grammar.ofCognates songs 3).Named := Grammar.named_ofCognates songs 3
  obtain ⟨hread, hstored, hgrammar⟩ := Document.restores songs hparsed
  exact ⟨hread.mpr hstorable, hstored.mpr hstorable,
    (hgrammar (Grammar.ofCognates songs 3) 100 hnamed hlist).1.mpr hstorable⟩

/-- A key that is short itself but needs long escapes. -/
def farKey : String := String.ofList ('\t' :: List.replicate 121 '😀')

/-- Between single quotes the line end U+0085 is read as a line feed, which a line folds into a
space. And a document is refused if a key, though short, is written so long that it does not reach
the colon on its line. -/
theorem Document.read_write_ne :
    read (write [⟨"a\u0085b", []⟩]) ≠ .ok [⟨"a\u0085b", []⟩] ∧
      ∀ found, read (write [⟨"", [⟨[], Table.insert ∅ farKey "", ""⟩]⟩]) ≠ .ok found := by
  constructor
  · have hname : (read (write [⟨"a\u0085b", []⟩])).toOption.map (List.map Cognate.name) =
        some ["a b"] := by decide +kernel
    intro he
    rw [he] at hname
    exact absurd hname (by decide)
  · have hchars : farKey.toList = '\t' :: List.replicate 121 '😀' := String.toList_ofList
    have hfar : ¬ReachesColon farKey.toList := by
      rw [hchars]
      exact fun h => absurd (h (by decide +kernel)) (by decide +kernel)
    refine read_write_ne_ok fun h => hfar ?_
    have hgroup := (Cognate.reachable_toDatum_iff _).mp (h _ (List.mem_singleton_self _)) _
      (List.mem_singleton_self _)
    rw [Group.toDatum_eq_describe, Group.reachable_describe_iff] at hgroup
    exact hgroup rfl (farKey, "") (List.mem_singleton_self _)

end TaggedGrammar
