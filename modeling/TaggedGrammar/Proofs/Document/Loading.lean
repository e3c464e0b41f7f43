import TaggedGrammar.Proofs.Document.Shape
import TaggedGrammar.Proofs.Grammar.Session

/-!
# Loading documents

A document is loaded into a grammar as a whole or not at all. If the text can be taken as data and
all entries of them describe cognates, these are inserted in their order, and of several with one
name the last one counts. If anything is wrong with the text, with its data or with any of the
entries, the grammar stays as it was.

## Main statements

* `Document.readBy_eq_ok_iff`, `Document.readBy_eq_error_iff`: the cognates of a text, and what is
  wrong with a text that has none.
* `Grammar.updated_insertMany`, `Grammar.Updated.unique`: what the insertion of cognates does.
* `Grammar.loadBy_iff_updated`: what loading a document does.

## Implementation notes

The reader that takes a text as data is a parameter, since nothing depends on how it does so.
-/

namespace TaggedGrammar

/-! ### Entries -/

namespace Document

variable {d d' : Datum} {ds : List Datum}

/-- The data of a document hold these data as its entries. -/
inductive Holds : Datum → List Datum → Prop where
  | nothing : Holds .null []
  | list (ds : List Datum) : Holds (.list ds) ds
  | listed {es : List (String × Datum)} {ds : List Datum}
      (h : es.lookup "cognates" = some (.list ds)) : Holds (.mapping es) ds
  | named {es named : List (String × Datum)}
      (h : es.lookup "cognates" = some (.mapping named)) :
      Holds (.mapping es) (named.map Prod.snd)
  | single {es : List (String × Datum)} (h : es.lookup "cognates" = none) :
      Holds (.mapping es) [.mapping es]

/-- What is wrong with data that hold no entries. -/
inductive HoldsNone (d : Datum) : FormatError → Prop where
  | notCollection (hnull : d ≠ .null) (h : d.isCollection = false) :
      HoldsNone d (.notCollection d.kind)
  | cognatesNotCollection {es : List (String × Datum)} {value : Datum} (h : d = .mapping es)
      (hvalue : es.lookup "cognates" = some value) (hscalar : value.isCollection = false) :
      HoldsNone d .cognatesNotCollection

theorem Holds.entries_eq (h : Holds d ds) : entries d = .ok ds := by
  cases h with
  | nothing => rfl
  | list ds => rfl
  | listed h => simp only [entries, h]
  | named h => simp only [entries, h]
  | single h => simp only [entries, h]

theorem HoldsNone.entries_eq {e : FormatError} (h : HoldsNone d e) : entries d = .error e := by
  cases h with
  | notCollection hnull h =>
      cases d with
      | null => exact absurd rfl hnull
      | list ds => cases h
      | mapping es => cases h
      | _ => rfl
  | @cognatesNotCollection es value h hvalue hscalar =>
      subst h
      simp only [entries, hvalue]
      cases value with
      | list ds => cases hscalar
      | mapping es => cases hscalar
      | _ => rfl

theorem exists_holds_or_holdsNone (d : Datum) : (∃ ds, Holds d ds) ∨ ∃ e, HoldsNone d e := by
  cases d with
  | null => exact Or.inl ⟨[], .nothing⟩
  | list ds => exact Or.inl ⟨ds, .list ds⟩
  | mapping es =>
      cases hvalue : es.lookup "cognates" with
      | none => exact Or.inl ⟨_, .single hvalue⟩
      | some value =>
          cases value with
          | list ds => exact Or.inl ⟨ds, .listed hvalue⟩
          | mapping named => exact Or.inl ⟨_, .named hvalue⟩
          | _ => exact Or.inr ⟨_, .cognatesNotCollection rfl hvalue rfl⟩
  | _ => exact Or.inr ⟨_, .notCollection nofun rfl⟩

theorem listOfData_eq_ok_iff {cs : List Cognate} :
    Cognate.listOfData ds = .ok cs ↔ List.Forall₂ Cognate.Matches ds cs := by
  rw [Cognate.inTurn_listOfData.eq_ok_iff (i := 0)]
  simp only [Cognate.ofDatum_eq_ok_iff]

theorem listOfData_eq_error_iff {e : DocumentError} :
    Cognate.listOfData ds = .error e ↔ ∃ before entry after, ds = before ++ entry :: after ∧
      (∀ b ∈ before, ∃ c, Cognate.Matches b c) ∧ Cognate.Fails entry e := by
  rw [Cognate.inTurn_listOfData.eq_error_iff (i := 0)]
  simp only [Cognate.ofDatum_eq_ok_iff, Cognate.ofDatum_eq_error_iff]

theorem Holds.ofDatum_eq (h : Holds d ds) : ofDatum d = Cognate.listOfData ds := by
  unfold ofDatum
  rw [h.entries_eq]

theorem HoldsNone.ofDatum_eq {e : FormatError} (h : HoldsNone d e) :
    ofDatum d = .error (.format e) := by
  unfold ofDatum
  rw [h.entries_eq]

/-- Data with the same entries describe the same cognates, or fail to for the same reason. -/
theorem Holds.ofDatum_congr (h : Holds d ds) (h' : Holds d' ds) : ofDatum d = ofDatum d' :=
  h.ofDatum_eq.trans h'.ofDatum_eq.symm

/-! ### Texts -/

variable {reader : String → Except Yaml.Fault Datum} {text : String} {cs : List Cognate}
variable {e : DocumentError}

/-- The cognates that a text describes, where a reader takes it as data. -/
def readBy (reader : String → Except Yaml.Fault Datum) (text : String) :
    Except DocumentError (List Cognate) :=
  match reader text with
  | .ok d => ofDatum d
  | .error fault => .error (.ofFault fault)

/-- The two texts are taken as data with the same entries, whatever form these have. -/
def SameEntries (reader : String → Except Yaml.Fault Datum) (text text' : String) : Prop :=
  ∃ d d' ds, reader text = .ok d ∧ reader text' = .ok d' ∧ Holds d ds ∧ Holds d' ds

/-- The text is taken as data whose entries describe the cognates. -/
def Matches (reader : String → Except Yaml.Fault Datum) (text : String) (cs : List Cognate) :
    Prop :=
  ∃ d ds, reader text = .ok d ∧ Holds d ds ∧ List.Forall₂ Cognate.Matches ds cs

/-- What is wrong with a text that describes no cognates: the text, the data that it is taken as, or
the first entry of them that describes none. -/
inductive Fails (reader : String → Except Yaml.Fault Datum) (text : String) :
    DocumentError → Prop where
  | text {fault : Yaml.Fault} (h : reader text = .error fault) : Fails reader text (.ofFault fault)
  | data {d : Datum} {e : FormatError} (h : reader text = .ok d) (hd : HoldsNone d e) :
      Fails reader text (.format e)
  | entry {d entry : Datum} {before after : List Datum} {e : DocumentError}
      (h : reader text = .ok d) (hd : Holds d (before ++ entry :: after))
      (hbefore : ∀ b ∈ before, ∃ c, Cognate.Matches b c) (hentry : Cognate.Fails entry e) :
      Fails reader text e

theorem readBy_datum : readBy Yaml.datum = read := rfl

theorem readBy_of_ok (h : reader text = .ok d) : readBy reader text = ofDatum d := by
  unfold readBy
  rw [h]

theorem readBy_of_error {fault : Yaml.Fault} (h : reader text = .error fault) :
    readBy reader text = .error (.ofFault fault) := by
  unfold readBy
  rw [h]

theorem SameEntries.readBy_eq {text' : String} (h : SameEntries reader text text') :
    readBy reader text' = readBy reader text := by
  obtain ⟨d, d', ds, htext, htext', hd, hd'⟩ := h
  rw [readBy_of_ok htext, readBy_of_ok htext', hd.ofDatum_congr hd']

theorem readBy_eq_ok_iff : readBy reader text = .ok cs ↔ Matches reader text cs := by
  constructor
  · intro h
    cases htext : reader text with
    | error fault => cases (readBy_of_error htext).symm.trans h
    | ok d =>
        rw [readBy_of_ok htext] at h
        rcases exists_holds_or_holdsNone d with ⟨ds, hd⟩ | ⟨e, hd⟩
        · rw [hd.ofDatum_eq] at h
          exact ⟨d, ds, htext, hd, listOfData_eq_ok_iff.mp h⟩
        · cases hd.ofDatum_eq.symm.trans h
  · rintro ⟨d, ds, htext, hd, hds⟩
    rw [readBy_of_ok htext, hd.ofDatum_eq]
    exact listOfData_eq_ok_iff.mpr hds

theorem readBy_eq_error_iff : readBy reader text = .error e ↔ Fails reader text e := by
  constructor
  · intro h
    cases htext : reader text with
    | error fault =>
        obtain rfl := Except.error.inj ((readBy_of_error htext).symm.trans h)
        exact .text htext
    | ok d =>
        rw [readBy_of_ok htext] at h
        rcases exists_holds_or_holdsNone d with ⟨ds, hd⟩ | ⟨e, hd⟩
        · rw [hd.ofDatum_eq] at h
          obtain ⟨before, entry, after, rfl, hbefore, hentry⟩ :=
            listOfData_eq_error_iff.mp h
          exact .entry htext hd hbefore hentry
        · obtain rfl := Except.error.inj (hd.ofDatum_eq.symm.trans h)
          exact .data htext hd
  · intro h
    cases h with
    | text htext => exact readBy_of_error htext
    | data htext hd => exact (readBy_of_ok htext).trans hd.ofDatum_eq
    | @entry d entry before after e htext hd hbefore hentry =>
        rw [readBy_of_ok htext, hd.ofDatum_eq]
        exact listOfData_eq_error_iff.mpr ⟨before, entry, after, rfl, hbefore, hentry⟩

end Document

/-! ### Grammars -/

namespace Grammar

variable {g g' : Grammar} {cs : List Cognate} {name : String}

/-- The grammar after the cognates were inserted. The names that were there keep their places and
the new ones stand behind them, in the order of their first occurrence. Of the inserted cognates of
one name the last one is there, and all other cognates are as they were. -/
structure Updated (g : Grammar) (cs : List Cognate) (g' : Grammar) : Prop where
  maxDepth_eq : g'.maxDepth = g.maxDepth
  names_eq : g'.names =
    g.names ++ ((cs.map Cognate.name).filter fun name => name ∉ g.names).eraseDups
  get?_last : ∀ before c after, cs = before ++ c :: after →
    (∀ other ∈ after, other.name ≠ c.name) → g'.get? c.name = some c
  get?_other : ∀ name, (∀ c ∈ cs, c.name ≠ name) → g'.get? name = g.get? name

theorem get?_insert_of_ne {c : Cognate} (h : c.name ≠ name) :
    (g.insert c).get? name = g.get? name := Table.get?_insert_of_ne h.symm

theorem get?_insertMany_of_ne (h : ∀ c ∈ cs, c.name ≠ name) :
    (g.insertMany cs).get? name = g.get? name := by
  induction cs generalizing g with
  | nil => rfl
  | cons c cs ih =>
      obtain ⟨hc, hcs⟩ := List.forall_mem_cons.mp h
      exact (ih hcs).trans (get?_insert_of_ne hc)

theorem updated_insertMany (g : Grammar) (cs : List Cognate) : g.Updated cs (g.insertMany cs) where
  maxDepth_eq := maxDepth_insertMany g cs
  names_eq := by
    have hnames : g.names.eraseDups = g.names := Table.eraseDups_of_nodup g.cognates.nodup
    rw [names_insertMany hnames.symm, List.eraseDups_append, hnames]
    simp [List.removeAll]
  get?_last := by
    rintro before c after rfl hafter
    have hsplit : g.insertMany (before ++ c :: after) =
        ((g.insertMany before).insert c).insertMany after := List.foldl_append ..
    rw [hsplit, get?_insertMany_of_ne hafter]
    exact Table.get?_insert_self ..
  get?_other _ := get?_insertMany_of_ne

theorem exists_last (h : ∃ c ∈ cs, c.name = name) :
    ∃ before c after, cs = before ++ c :: after ∧ c.name = name ∧
      ∀ other ∈ after, other.name ≠ c.name := by
  induction cs with
  | nil => obtain ⟨c, hc, -⟩ := h; cases hc
  | cons c cs ih =>
      by_cases hcs : ∃ c ∈ cs, c.name = name
      · obtain ⟨before, last, after, rfl, hname, hafter⟩ := ih hcs
        exact ⟨c :: before, last, after, rfl, hname, hafter⟩
      · have hc : c.name = name := by
          obtain ⟨found, hm, hname⟩ := h
          rcases List.mem_cons.mp hm with rfl | hm
          · exact hname
          · exact absurd ⟨found, hm, hname⟩ hcs
        refine ⟨[], c, cs, rfl, hc, ?_⟩
        exact fun other hm hother => hcs ⟨other, hm, hother.trans hc⟩

/-- Only one grammar is the one after the cognates were inserted. -/
theorem Updated.unique {g₁ g₂ : Grammar} (h₁ : g.Updated cs g₁) (h₂ : g.Updated cs g₂) :
    g₁ = g₂ := by
  have hget : ∀ name, g₁.get? name = g₂.get? name := by
    intro name
    -- Both grammars have the last of the inserted cognates of the name, or what was there before.
    by_cases hname : ∃ c ∈ cs, c.name = name
    · obtain ⟨before, c, after, hcs, rfl, hafter⟩ := exists_last hname
      rw [h₁.get?_last before c after hcs hafter, h₂.get?_last before c after hcs hafter]
    · have hout : ∀ c ∈ cs, c.name ≠ name := fun c hc hne => hname ⟨c, hc, hne⟩
      rw [h₁.get?_other name hout, h₂.get?_other name hout]
  have hcognates : g₁.cognates = g₂.cognates :=
    Table.ext_get? (h₁.names_eq.trans h₂.names_eq.symm) fun name _ => hget name
  have hdepth : g₁.maxDepth = g₂.maxDepth := h₁.maxDepth_eq.trans h₂.maxDepth_eq.symm
  cases g₁
  cases g₂
  simp only [mk.injEq]
  exact ⟨hcognates, hdepth⟩

/-- The answer where a document is loaded into a grammar, and the grammar afterwards. -/
def loadBy (reader : String → Except Yaml.Fault Datum) (g : Grammar) (text : String) :
    Except DocumentError Unit × Grammar :=
  match Document.readBy reader text with
  | .ok cs => (.ok (), g.insertMany cs)
  | .error e => (.error e, g)

section Load

variable {reader : String → Except Yaml.Fault Datum} {text : String}

theorem loadBy_eq_ok_iff :
    g.loadBy reader text = (.ok (), g') ↔
      ∃ cs, Document.Matches reader text cs ∧ g.Updated cs g' := by
  unfold loadBy
  simp only [← Document.readBy_eq_ok_iff]
  cases Document.readBy reader text with
  | error e =>
      constructor
      · exact nofun
      · rintro ⟨cs, ⟨⟩, -⟩
  | ok cs =>
      constructor
      · rintro ⟨⟩
        exact ⟨cs, rfl, updated_insertMany g cs⟩
      · rintro ⟨_, ⟨⟩, hupdated⟩
        rw [hupdated.unique (updated_insertMany g cs)]

theorem loadBy_eq_error_iff {e : DocumentError} :
    g.loadBy reader text = (.error e, g') ↔ Document.Fails reader text e ∧ g' = g := by
  unfold loadBy
  rw [← Document.readBy_eq_error_iff]
  cases Document.readBy reader text with
  | error e' => simp [eq_comm]
  | ok cs => simp

theorem load_eq_loadBy (g : Grammar) (text : String) :
    g.load text = (g.loadBy Yaml.datum text).1.map fun _ => (g.loadBy Yaml.datum text).2 := by
  change (Document.read text).map g.insertMany = _
  unfold loadBy
  rw [Document.readBy_datum]
  cases Document.read text <;> rfl

end Load

/-- Loading inserts the cognates that a text describes, or leaves the grammar as it was and tells
what is wrong with the text. It depends on the entries, and not on the form that holds them. -/
theorem loadBy_iff_updated (reader : String → Except Yaml.Fault Datum) (g : Grammar)
    (text : String) :
    (∀ g', g.loadBy reader text = (.ok (), g') ↔
      ∃ cs, Document.Matches reader text cs ∧ g.Updated cs g') ∧
    (∀ e g', g.loadBy reader text = (.error e, g') ↔ Document.Fails reader text e ∧ g' = g) ∧
    (∀ text', Document.SameEntries reader text text' →
      g.loadBy reader text' = g.loadBy reader text) ∧
    g.load text = (g.loadBy Yaml.datum text).1.map fun _ => (g.loadBy Yaml.datum text).2 := by
  refine ⟨fun _ => loadBy_eq_ok_iff, fun _ _ => loadBy_eq_error_iff, ?_, load_eq_loadBy g text⟩
  intro text' h
  unfold loadBy
  rw [h.readBy_eq]

/-- Two cats and a dog in a list. -/
def listedPets : String :=
  "- name: cat\n  groups:\n  - rules: [tom]\n- name: dog\n" ++
    "- name: cat\n  groups:\n  - rules: [tabby]\n"

/-- The same pets under keys, which are not their names. -/
def keyedPets : String :=
  "cognates:\n  a:\n    name: cat\n    groups:\n    - rules: [tom]\n  b:\n    name: dog\n" ++
    "  c:\n    name: cat\n    groups:\n    - rules: [tabby]\n"

/-- The entry of a cat of one rule. -/
def catEntry (rule : String) : Datum :=
  .mapping [("name", .text "cat"), ("groups", .list [.mapping [("rules", .list [.text rule])]])]

/-- The entry of a dog without rules. -/
def dogEntry : Datum := .mapping [("name", .text "dog")]

/-- The entries under keys. -/
def keyedEntries : List (String × Datum) :=
  [("a", catEntry "tom"), ("b", dogEntry), ("c", catEntry "tabby")]

theorem datum_listedPets :
    Yaml.datum listedPets = .ok (.list [catEntry "tom", dogEntry, catEntry "tabby"]) := by
  with_unfolding_all rfl

set_option maxRecDepth 1024 in
theorem datum_keyedPets :
    Yaml.datum keyedPets = .ok (.mapping [("cognates", .mapping keyedEntries)]) := by
  with_unfolding_all rfl

/-- A cat of one rule, which is plain text. -/
def cat (text : String) : Cognate := ⟨"cat", [⟨[⟨text, [.literal text]⟩], ∅, ""⟩]⟩

/-- Cognates under keys are loaded as those in a list are: the dog keeps its place and is replaced,
and of the two cats behind the cow the last one stays. -/
theorem loadBy_keyed_eq_listed :
    let g : Grammar := .ofCognates [⟨"dog", [⟨[], ∅, "asleep"⟩]⟩, ⟨"cow", []⟩] 3
    let g' := g.insertMany [cat "tom", ⟨"dog", []⟩, cat "tabby"]
    Document.SameEntries Yaml.datum listedPets keyedPets ∧
      g.loadBy Yaml.datum listedPets = (.ok (), g') ∧
      g.loadBy Yaml.datum keyedPets = (.ok (), g') ∧ g.load keyedPets = .ok g' ∧
      g'.toList = [⟨"dog", []⟩, ⟨"cow", []⟩, cat "tabby"] := by
  intro g g'
  have hnamed : Document.Holds (.mapping [("cognates", .mapping keyedEntries)])
      (keyedEntries.map Prod.snd) := .named rfl
  have hsame : Document.SameEntries Yaml.datum listedPets keyedPets :=
    ⟨_, _, _, datum_listedPets, datum_keyedPets, .list _, hnamed⟩
  have hcognates : Cognate.listOfData [catEntry "tom", dogEntry, catEntry "tabby"] =
      .ok [cat "tom", ⟨"dog", []⟩, cat "tabby"] := rfl
  have hmatches : Document.Matches Yaml.datum listedPets [cat "tom", ⟨"dog", []⟩, cat "tabby"] :=
    ⟨_, _, datum_listedPets, .list _, Document.listOfData_eq_ok_iff.mp hcognates⟩
  obtain ⟨hok, -, hforms, -⟩ := loadBy_iff_updated Yaml.datum g listedPets
  obtain ⟨-, -, -, hload⟩ := loadBy_iff_updated Yaml.datum g keyedPets
  have hloaded : g.loadBy Yaml.datum listedPets = (.ok (), g') :=
    (hok g').mpr ⟨_, hmatches, updated_insertMany g _⟩
  have hloaded' : g.loadBy Yaml.datum keyedPets = (.ok (), g') := (hforms _ hsame).trans hloaded
  rw [hloaded'] at hload
  exact ⟨hsame, hloaded, hloaded', hload, rfl⟩

end Grammar

end TaggedGrammar
