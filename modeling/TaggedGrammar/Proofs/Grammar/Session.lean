import Mathlib.Data.List.DropRight
import TaggedGrammar.Expansion.Basic
import TaggedGrammar.Proofs.Document.Inverse

/-!
# Sessions

In a session a grammar is filled and asked, one request after the other. Cognates are inserted,
created and edited, documents are loaded, and texts are expanded. A request may be refused. A
document that is refused leaves the grammar as it was, while an edit that is refused has still
created the cognate that it was meant for. Whatever was asked and refused, the names of the grammar
and the cognate of each name can be told from the history of the session.

## Main statements

* `Request.performs_perform`: what a request may do to a grammar.
* `Session.Kept.step`: what holds of a session holds after one more request.
* `Session.kept_run`: what holds after every list of requests.

## Implementation notes

A request names the cognate that it edits, and the group by its index. A cognate is inserted as it
was built, so later edits of it are requests of their own. A grammar that is made of cognates is one
into which they are inserted.
-/

namespace TaggedGrammar

/-! ### Edits -/

/-- The edits of a cognate. -/
inductive Edit where
  | addGroup (tags : Table String) (note : String)
  | groupFromRules (literals : List String) (tags : Table String) (note : String)
  | addRule (index : Nat) (literal : String)
  | addRules (index : Nat) (literals : List String)
  | setTag (index : Nat) (key value : String)

namespace Edit

/-- The index of the group that is edited. -/
def index? : Edit → Option Nat
  | addGroup _ _ | groupFromRules _ _ _ => none
  | addRule index _ | addRules index _ | setTag index _ _ => some index

/-- Whether the cognate has the group that is edited. -/
def fits (change : Edit) (c : Cognate) : Bool := change.index?.all (· < c.groups.length)

/-- The cognate after the edit. -/
def apply : Edit → Cognate → Except InvalidRule Cognate
  | addGroup tags note, c => .ok (c.addGroup (.ofTags tags note))
  | groupFromRules literals tags note, c => c.groupFromRules literals tags note
  | addRule index literal, c => c.editGroup index fun g => g.addRule literal
  | addRules index literals, c => c.editGroup index fun g => g.addRules literals
  | setTag index key value, c => c.editGroup index fun g => .ok (g.setTag key value)

end Edit

/-- The cognate after edits, one after the other. -/
def Cognate.revised (c : Cognate) (changes : List Edit) : Except InvalidRule Cognate :=
  changes.foldlM (fun c change => change.apply c) c

/-! ### Requests -/

/-- What can be asked of a grammar. -/
inductive Request where
  | insert (c : Cognate) (built : c.Built)
  | create (name : String)
  | edit (name : String) (change : Edit)
  | load (text : String)
  | loadStored (text : String)
  | generate (name : String) (ctx : Context)
  | expand (literal : String) (ctx : Context)
  | evaluate (tokens : List Token) (ctx : Context)
  | select (name : String) (ctx : Context)

/-- Why a request is refused. -/
inductive Refusal where
  | groupMissing
  | invalidRule (e : InvalidRule)
  | document (e : DocumentError)
  | expansion (e : ExpansionError)

/-- The answer to a request, with the grammar and the draws after it. -/
structure Outcome where
  answer : Except Refusal Unit
  grammar : Grammar
  chance : Chance

namespace Request

/-- The outcome where a document is loaded. -/
def loading (g : Grammar) (chance : Chance) : Except DocumentError Grammar → Outcome
  | .ok loaded => ⟨.ok (), loaded, chance⟩
  | .error e => ⟨.error (.document e), g, chance⟩

/-- The outcome where a step is taken, which only reads the grammar. -/
def taking {α : Type} (g : Grammar) (chance : Chance) (ctx : Context) (step : Step α) : Outcome :=
  let (result, s) := step (.start ctx chance)
  ⟨(result.map fun _ => ()).mapError .expansion, g, s.chance⟩

/-- Performs a request. -/
def perform (g : Grammar) (chance : Chance) : Request → Outcome
  | insert c _ => ⟨.ok (), g.insert c, chance⟩
  | create name => ⟨.ok (), g.create name, chance⟩
  | edit name change =>
    if change.fits (g.cognate name) then
      let (result, edited) := g.edit name change.apply
      ⟨result.mapError .invalidRule, edited, chance⟩
    else ⟨.error .groupMissing, g.create name, chance⟩
  | load text => loading g chance (g.load text)
  | loadStored text => loading g chance ((Document.readStored text).map g.insertMany)
  | generate name ctx => taking g chance ctx (g.generateWith name)
  | expand literal ctx => taking g chance ctx (g.expandWith literal)
  | evaluate tokens ctx => taking g chance ctx (g.evaluate tokens)
  | select name ctx => taking g chance ctx (g.select name)

/-- The cognates that a request inserts. -/
def inserted : Request → List Cognate
  | insert c _ => [c]
  | load text => (Document.read text).toOption.getD []
  | loadStored text => (Document.readStored text).toOption.getD []
  | _ => []

/-- The name of the cognate that a request creates where there is none. -/
def created? : Request → Option String
  | create name | edit name _ => some name
  | _ => none

/-- The names that are in the grammar after a request, if they were not before. -/
def names (r : Request) : List String := r.created?.toList ++ r.inserted.map Cognate.name

end Request

/-! ### Histories -/

/-- A request and its answer. -/
structure Entry where
  request : Request
  answer : Except Refusal Unit

/-- The edit of the cognate of a name, unless it was refused. -/
def Entry.edit? (name : String) : Entry → Option Edit
  | ⟨.edit edited change, .ok ()⟩ => if edited = name then some change else none
  | _ => none

/-- The last cognate that was inserted under a name, or an empty one if there is none. -/
def lastInserted (name : String) (history : List Entry) : Cognate :=
  ((history.flatMap fun e => e.request.inserted).filter fun c => c.name = name).getLast?.getD
    (.ofName name)

/-- The edits that were made of the cognate of a name since the last insertion under it. -/
def editsSince (name : String) (history : List Entry) : List Edit :=
  (history.rtakeWhile fun e => name ∉ e.request.inserted.map Cognate.name).filterMap
    (Entry.edit? name)

/-- The cognate of a name that a history tells of: the last one that was inserted, with the edits
since. -/
def recorded (name : String) (history : List Entry) : Except InvalidRule Cognate :=
  (lastInserted name history).revised (editsSince name history)

/-- A grammar that requests are made of, the draws so far, and the history of the requests. -/
structure Session where
  grammar : Grammar
  chance : Chance
  history : List Entry

namespace Session

/-- The session with a grammar that is empty. -/
def start (asked : Int) (chance : Chance) : Session := ⟨.ofDepth asked, chance, []⟩

/-- The session after a request. -/
def step (s : Session) (r : Request) : Session :=
  let outcome := r.perform s.grammar s.chance
  ⟨outcome.grammar, outcome.chance, s.history ++ [⟨r, outcome.answer⟩]⟩

/-- The session after requests, one after the other. -/
def run (s : Session) (requests : List Request) : Session := requests.foldl step s

end Session

/-! ### Insertion into a grammar -/

namespace Grammar

variable {g : Grammar} {c : Cognate} {name : String}

theorem Parsed.insert (h : g.Parsed) (hc : c.Parsed) : (g.insert c).Parsed := by
  intro other hm
  rcases mem_toList_insert hm with hm | rfl
  · exact h other hm
  · exact hc

theorem Parsed.insertMany {cs : List Cognate} (h : g.Parsed) (hcs : ∀ c ∈ cs, c.Parsed) :
    (g.insertMany cs).Parsed := by
  intro c hm
  rcases mem_toList_insertMany hm with hm | hm
  · exact h c hm
  · exact hcs c hm

theorem names_insert {names : List String} (h : g.names = names.eraseDups) (c : Cognate) :
    (g.insert c).names = (names ++ [c.name]).eraseDups :=
  Table.keys_insert_of_eraseDups h c.name c

theorem names_insertMany {names : List String} (h : g.names = names.eraseDups)
    (cs : List Cognate) :
    (g.insertMany cs).names = (names ++ cs.map Cognate.name).eraseDups := by
  induction cs generalizing g names with
  | nil => rw [List.map_nil, List.append_nil]; exact h
  | cons c cs ih =>
      rw [List.map_cons, List.append_cons]
      exact ih (names_insert h c)

theorem cognate_insert (g : Grammar) (c : Cognate) (name : String) :
    (g.insert c).cognate name = if name = c.name then c else g.cognate name := by
  rw [cognate, get?, insert, Table.get?_insert]
  split <;> rfl

/-- Of the cognates of one name the last one stays. -/
theorem cognate_insertMany (g : Grammar) (cs : List Cognate) (name : String) :
    (g.insertMany cs).cognate name =
      (cs.filter fun c => c.name = name).getLast?.getD (g.cognate name) := by
  induction cs using List.reverseRecOn with
  | nil => rfl
  | append_singleton cs c ih =>
      have hlast : g.insertMany (cs ++ [c]) = (g.insertMany cs).insert c := List.foldl_concat ..
      rw [hlast, cognate_insert, ih, List.filter_append, List.getLast?_append]
      by_cases hc : c.name = name
      · simp [hc]
      · simp [hc, Ne.symm hc]

theorem Named.cognate_name (h : g.Named) (name : String) : (g.cognate name).name = name := by
  cases hget : g.get? name with
  | none => rw [cognate, hget]; rfl
  | some c =>
      rw [cognate, hget]
      exact h (name, c) (Table.get?_eq_some_iff.mp hget)

theorem Parsed.cognate (h : g.Parsed) (name : String) : (g.cognate name).Parsed := by
  cases hget : g.get? name with
  | none => rw [Grammar.cognate, hget]; exact nofun
  | some c =>
      rw [Grammar.cognate, hget]
      exact h c (mem_toList_of_get? hget)

/-- To create a cognate is to insert the one that is there, or an empty one. -/
theorem Named.create_eq (h : g.Named) (name : String) :
    g.create name = g.insert (g.cognate name) := by
  rw [Grammar.insert, h.cognate_name]
  cases hget : g.get? name with
  | none =>
      have hcontains : g.contains name = false := Table.contains_eq_false_iff_get?.mpr hget
      rw [create, hcontains, cognate, hget]
      rfl
  | some c =>
      have hcontains : g.contains name = true := by
        rw [← Bool.not_eq_false, Grammar.contains, Table.contains_eq_false_iff_get?]
        exact fun hnone => Option.some_ne_none c (hget.symm.trans hnone)
      rw [create, hcontains, cognate, hget, Option.getD_some, Table.insert_of_get? hget]
      rfl

/-- An edit that is refused creates the cognate all the same. -/
theorem Named.edit_eq (h : g.Named) {name : String} {f : Cognate → Except InvalidRule Cognate}
    (hf : ∀ c edited, f c = .ok edited → edited.name = c.name) :
    g.edit name f =
      match f (g.cognate name) with
      | .ok c => (.ok (), g.insert c)
      | .error e => (.error e, g.insert (g.cognate name)) := by
  have hmade : (g.create name).cognate name = g.cognate name := by
    rw [h.create_eq, cognate_insert, h.cognate_name, if_pos rfl]
  rw [edit, hmade]
  cases hresult : f (g.cognate name) with
  | error e => exact congrArg (Prod.mk _) (h.create_eq name)
  | ok c =>
      have hname : c.name = name := (hf _ c hresult).trans (h.cognate_name name)
      refine congrArg (Prod.mk _) ?_
      rw [h.create_eq, Grammar.insert, Grammar.insert, h.cognate_name, hname,
        Table.insert_insert_self]

theorem get?_eq_some_iff_cognate :
    g.get? name = some c ↔ name ∈ g.names ∧ g.cognate name = c := by
  cases hget : g.get? name with
  | none =>
      have hout : name ∉ g.names := Table.get?_eq_none_iff.mp hget
      exact iff_of_false nofun fun h => hout h.1
  | some found =>
      have hin : name ∈ g.names := by
        by_contra hout
        exact Option.some_ne_none found (hget.symm.trans (Table.get?_eq_none_iff.mpr hout))
      rw [cognate, hget, Option.getD_some, Option.some.injEq, and_iff_right hin]

end Grammar

/-! ### What is inserted -/

theorem Cognate.parsed_of_listOfData {ds : List Datum} {cs : List Cognate}
    (h : listOfData ds = .ok cs) : ∀ c ∈ cs, c.Parsed := by
  intro c hc
  obtain ⟨d, hd⟩ := inTurn_listOfData.exists_item (i := 0) h c hc
  exact parsed_of_ofDatum hd

theorem Document.parsed_of_read {text : String} {cs : List Cognate} (h : read text = .ok cs) :
    ∀ c ∈ cs, c.Parsed := by
  unfold read ofDatum at h
  split at h
  · split at h
    · exact Cognate.parsed_of_listOfData h
    · cases h
  · cases h

theorem Cognate.name_of_editGroup {c edited : Cognate} {i : Nat}
    {f : Group → Except InvalidRule Group} (h : c.editGroup i f = .ok edited) :
    edited.name = c.name := by
  unfold Cognate.editGroup at h
  split at h
  · obtain ⟨g, -, rfl⟩ := Answer.map_eq_ok_iff.mp h
    rfl
  · cases h
    rfl

namespace Edit

/-- An edit adds parsed rules only. -/
theorem parsed {change : Edit} {c edited : Cognate} (hc : c.Parsed)
    (h : change.apply c = .ok edited) : edited.Parsed := by
  cases change with
  | addGroup tags note =>
      cases h
      exact hc.addGroup (g := .ofTags tags note) nofun
  | groupFromRules literals tags note =>
      obtain ⟨g, hg, rfl⟩ := Answer.map_eq_ok_iff.mp h
      exact hc.addGroup (Group.ofLiterals_eq_ok_iff.mp hg).2.1
  | addRule index literal => exact hc.editGroup (.addRule literal) h
  | addRules index literals => exact hc.editGroup (.addRules literals) h
  | setTag index key value => exact hc.editGroup (.setTag key value) h

theorem name_eq {change : Edit} {c edited : Cognate} (h : change.apply c = .ok edited) :
    edited.name = c.name := by
  cases change with
  | addGroup tags note => cases h; rfl
  | groupFromRules literals tags note =>
      obtain ⟨g, -, rfl⟩ := Answer.map_eq_ok_iff.mp h
      rfl
  | addRule index literal => exact Cognate.name_of_editGroup h
  | addRules index literals => exact Cognate.name_of_editGroup h
  | setTag index key value => exact Cognate.name_of_editGroup h

end Edit

/-! ### What a history tells of -/

theorem Cognate.revised_singleton (c : Cognate) (change : Edit) :
    c.revised [change] = change.apply c := bind_pure _

section History

variable (name : String) (history : List Entry) (e : Entry)

theorem lastInserted_concat :
    lastInserted name (history ++ [e]) =
      (e.request.inserted.filter fun c => c.name = name).getLast?.getD
        (lastInserted name history) := by
  rw [lastInserted, List.flatMap_append, List.filter_append, List.getLast?_append,
    Option.getD_or, List.flatMap_singleton, lastInserted]

theorem editsSince_concat :
    editsSince name (history ++ [e]) =
      if name ∈ e.request.inserted.map Cognate.name then []
      else editsSince name history ++ (e.edit? name).toList := by
  rw [editsSince, List.rtakeWhile_concat]
  by_cases h : name ∈ e.request.inserted.map Cognate.name
  · rw [if_pos h, if_neg (by simpa using h)]
    rfl
  · rw [if_neg h, if_pos (by simpa using h), List.filterMap_append]
    rfl

/-- An insertion under a name makes what was before of no account. -/
theorem recorded_concat :
    recorded name (history ++ [e]) =
      match (e.request.inserted.filter fun c => c.name = name).getLast? with
      | some c => .ok c
      | none => (recorded name history).bind fun c => c.revised (e.edit? name).toList := by
  rw [recorded, lastInserted_concat, editsSince_concat]
  cases hlast : (e.request.inserted.filter fun c => c.name = name).getLast? with
  | none =>
      have hout : name ∉ e.request.inserted.map Cognate.name := by
        simpa [List.getLast?_eq_none_iff] using hlast
      rw [if_neg hout, Option.getD_none, Cognate.revised, List.foldlM_append]
      rfl
  | some c =>
      obtain ⟨hc, hname⟩ := List.mem_filter.mp (List.mem_of_getLast? hlast)
      have hin : name ∈ e.request.inserted.map Cognate.name :=
        List.mem_map.mpr ⟨c, hc, of_decide_eq_true hname⟩
      rw [if_pos hin]
      rfl

end History

namespace Request

variable {g : Grammar} {r : Request}

theorem parsed_of_mem_read (result : Except DocumentError (List Cognate))
    (h : ∀ cs, result = .ok cs → ∀ c ∈ cs, c.Parsed) :
    ∀ c ∈ result.toOption.getD [], c.Parsed := by
  cases result with
  | ok cs => exact h cs rfl
  | error e => exact nofun

theorem parsed_of_mem_inserted (r : Request) : ∀ c ∈ r.inserted, c.Parsed := by
  cases r with
  | insert c built => exact List.forall_mem_singleton.mpr built.parsed
  | load text => exact parsed_of_mem_read (Document.read text) fun _ => Document.parsed_of_read
  | loadStored text =>
      exact parsed_of_mem_read (Document.readStored text) fun _ => Document.parsed_of_read
  | _ => exact nofun

theorem inserted_of_created {name : String} (h : r.created? = some name) : r.inserted = [] := by
  cases r with
  | create name | edit name change => rfl
  | _ => cases h

/-! ### What a request may do -/

/-- What a request may do to a grammar: it inserts cognates; it makes sure that there is a cognate
of a name, which stays as it is; or it edits the cognate of a name. -/
inductive Performs (g : Grammar) : Request → Except Refusal Unit → Grammar → Prop where
  | stored {r : Request} {answer : Except Refusal Unit} (nothing_created : r.created? = none)
      (not_edited : ∀ name, Entry.edit? name ⟨r, answer⟩ = none) :
      Performs g r answer (g.insertMany r.inserted)
  | created {r : Request} {answer : Except Refusal Unit} {name : String}
      (creates : r.created? = some name)
      (not_edited : ∀ name, Entry.edit? name ⟨r, answer⟩ = none) :
      Performs g r answer (g.insert (g.cognate name))
  | edited {name : String} {change : Edit} {c : Cognate}
      (applied : change.apply (g.cognate name) = .ok c) :
      Performs g (.edit name change) (.ok ()) (g.insert c)

theorem Performs.loading (result : Except DocumentError (List Cognate)) (chance : Chance)
    (hinserted : r.inserted = result.toOption.getD []) (hcreated : r.created? = none)
    (hedit : ∀ answer name, Entry.edit? name ⟨r, answer⟩ = none) :
    let outcome := Request.loading g chance (result.map g.insertMany)
    Performs g r outcome.answer outcome.grammar := by
  have hstored (answer : Except Refusal Unit) : Performs g r answer (g.insertMany r.inserted) :=
    .stored hcreated (hedit answer)
  rw [hinserted] at hstored
  cases result with
  | ok cs => exact hstored (.ok ())
  | error e => exact hstored (.error (.document e))

theorem Performs.taking {α : Type} (step : Step α) (ctx : Context) (chance : Chance)
    (hinserted : r.inserted = []) (hcreated : r.created? = none)
    (hedit : ∀ answer name, Entry.edit? name ⟨r, answer⟩ = none) :
    let outcome := Request.taking g chance ctx step
    Performs g r outcome.answer outcome.grammar := by
  intro outcome
  have hstored : Performs g r outcome.answer (g.insertMany r.inserted) :=
    .stored hcreated (hedit outcome.answer)
  rwa [hinserted] at hstored

/-- A request that is performed does one of these, whatever its answer. -/
theorem performs_perform (hg : g.Named) (chance : Chance) (r : Request) :
    Performs g r (r.perform g chance).answer (r.perform g chance).grammar := by
  have hcreate (name : String) : g.create name = g.insert (g.cognate name) := hg.create_eq name
  cases r with
  | insert c built => exact .stored rfl fun _ => rfl
  | create name =>
      rw [perform, hcreate]
      exact .created rfl fun _ => rfl
  | edit name change =>
      rw [perform, hg.edit_eq fun _ _ => Edit.name_eq]
      split
      · cases happlied : change.apply (g.cognate name) with
        | ok c => exact .edited happlied
        | error e => exact .created rfl fun _ => rfl
      · rw [hcreate]
        exact .created rfl fun _ => rfl
  | load text => exact .loading (Document.read text) chance rfl rfl fun _ _ => rfl
  | loadStored text => exact .loading (Document.readStored text) chance rfl rfl fun _ _ => rfl
  | generate name ctx => exact .taking _ ctx chance rfl rfl fun _ _ => rfl
  | expand literal ctx => exact .taking _ ctx chance rfl rfl fun _ _ => rfl
  | evaluate tokens ctx => exact .taking _ ctx chance rfl rfl fun _ _ => rfl
  | select name ctx => exact .taking _ ctx chance rfl rfl fun _ _ => rfl

/-! ### One more request -/

namespace Performs

variable {edited : Grammar} {answer : Except Refusal Unit}

theorem named (h : Performs g r answer edited) (hg : g.Named) : edited.Named := by
  cases h with
  | stored _ _ => exact hg.insertMany r.inserted
  | created _ _ => exact hg.insert _
  | edited _ => exact hg.insert _

theorem parsed (h : Performs g r answer edited) (hg : g.Parsed) : edited.Parsed := by
  cases h with
  | stored _ _ => exact hg.insertMany r.parsed_of_mem_inserted
  | created _ _ => exact hg.insert (hg.cognate _)
  | edited applied => exact hg.insert (Edit.parsed (hg.cognate _) applied)

/-- The names of the request are put behind the others, unless they are there. -/
theorem names_eq (h : Performs g r answer edited) (hg : g.Named) {written : List String}
    (hnames : g.names = written.eraseDups) : edited.names = (written ++ r.names).eraseDups := by
  cases h with
  | stored nothing_created _ =>
      rw [names, nothing_created]
      exact Grammar.names_insertMany hnames r.inserted
  | @created _ _ name creates _ =>
      rw [Grammar.names_insert hnames, hg.cognate_name, names, creates, inserted_of_created creates]
      rfl
  | @edited name change c applied =>
      rw [Grammar.names_insert hnames, Edit.name_eq applied, hg.cognate_name]
      rfl

/-- The cognate of a name stays the one that the history tells of. -/
theorem recorded_eq (h : Performs g r answer edited) (hg : g.Named) {name : String}
    {history : List Entry} (hrecorded : recorded name history = .ok (g.cognate name)) :
    recorded name (history ++ [⟨r, answer⟩]) = .ok (edited.cognate name) := by
  rw [recorded_concat, hrecorded]
  cases h with
  | stored nothing_created not_edited =>
      rw [Grammar.cognate_insertMany, not_edited]
      cases (r.inserted.filter fun c => c.name = name).getLast? <;> rfl
  | @created _ _ made creates not_edited =>
      have hsame : (if name = made then g.cognate made else g.cognate name) = g.cognate name :=
        ite_eq_right_iff.mpr fun hname => congrArg g.cognate hname.symm
      rw [inserted_of_created creates, not_edited, Grammar.cognate_insert, hg.cognate_name, hsame]
      rfl
  | @edited made change c applied =>
      rw [Grammar.cognate_insert, Edit.name_eq applied, hg.cognate_name]
      have hedit : Entry.edit? name ⟨.edit made change, .ok ()⟩ =
          if made = name then some change else none := rfl
      have hnone : (Request.edit made change).inserted = [] := rfl
      rw [hedit, hnone]
      by_cases hname : made = name
      · subst made
        rw [if_pos rfl, if_pos rfl]
        exact (Cognate.revised_singleton _ change).trans applied
      · rw [if_neg hname, if_neg (Ne.symm hname)]
        rfl

end Performs

end Request

namespace Session

/-- What holds of a session: the cognates stand under their names, and their rules are parsed; the
names are those of the requests, in the order of their first occurrence; and the cognates are those
that the history tells of. -/
structure Kept (s : Session) : Prop where
  named : s.grammar.Named
  parsed : s.grammar.Parsed
  names : s.grammar.names = (s.history.flatMap fun e => e.request.names).eraseDups
  recorded : ∀ name, recorded name s.history = .ok (s.grammar.cognate name)

theorem kept_start (asked : Int) (chance : Chance) : (start asked chance).Kept where
  named := nofun
  parsed := nofun
  names := rfl
  recorded := fun _ => rfl

theorem Kept.step {s : Session} (h : s.Kept) (r : Request) : (s.step r).Kept := by
  have hperforms := Request.performs_perform h.named s.chance r
  constructor
  · exact hperforms.named h.named
  · exact hperforms.parsed h.parsed
  · have hnames := hperforms.names_eq h.named h.names
    rw [Session.step, List.flatMap_append, List.flatMap_singleton]
    exact hnames
  · exact fun name => hperforms.recorded_eq h.named (h.recorded name)

theorem Kept.run {s : Session} (h : s.Kept) (requests : List Request) : (s.run requests).Kept := by
  induction requests generalizing s with
  | nil => exact h
  | cons r rest ih => exact ih (h.step r)

theorem history_run (s : Session) (requests : List Request) :
    (s.run requests).history.map Entry.request = s.history.map Entry.request ++ requests := by
  induction requests generalizing s with
  | nil => exact (List.append_nil _).symm
  | cons r rest ih =>
      rw [List.append_cons]
      exact (ih (s.step r)).trans (congrArg (· ++ rest) List.map_append)

/-- Whatever is asked of a grammar that is empty at first, and whatever is refused: the cognates
stand under their names, which are distinct and in the order in which they were inserted or created
first; the cognate of a name is the last one that was inserted, with the edits that were made since;
and all rules are parsed. -/
theorem kept_run (asked : Int) (chance : Chance) (requests : List Request) :
    let s := (start asked chance).run requests
    s.history.map Entry.request = requests ∧
      s.grammar.Named ∧ s.grammar.Parsed ∧ s.grammar.names.Nodup ∧
      s.grammar.names = (requests.flatMap Request.names).eraseDups ∧
      ∀ name c, s.grammar.get? name = some c ↔
        name ∈ s.grammar.names ∧ recorded name s.history = .ok c := by
  intro s
  have hkept : s.Kept := (kept_start asked chance).run requests
  have hrequests : s.history.map Entry.request = requests := history_run _ requests
  refine ⟨hrequests, hkept.named, hkept.parsed, s.grammar.cognates.nodup, ?_, fun name c => ?_⟩
  · rw [hkept.names, ← hrequests, List.flatMap_map]
  · rw [Grammar.get?_eq_some_iff_cognate, hkept.recorded, Except.ok.injEq]

/-- Two edits are refused, for want of a group and of a rule that can be read, and the hill is
replaced by another one. -/
example :
    let frog : Cognate := ⟨"pond", [⟨[⟨"frog", [.literal "frog"]⟩], ∅, ""⟩]⟩
    let s := (start 100 (.ofArray #[])).run [.edit "pond" (.addRule 0 "frog"),
      .insert (.ofName "hill") (.ofName _), .edit "pond" (.groupFromRules ["frog", "<"] ∅ ""),
      .edit "hill" (.addGroup ∅ ""), .edit "pond" (.groupFromRules ["frog"] ∅ ""),
      .insert (.ofName "hill") (.ofName _), .generate "pond" .empty]
    s.history.map (fun e => e.answer.isOk) = [false, true, false, true, true, true, true] ∧
      s.grammar.names = ["pond", "hill"] ∧ s.grammar.get? "pond" = some frog ∧
      s.grammar.get? "hill" = some (.ofName "hill") := by
  decide

end Session

end TaggedGrammar
