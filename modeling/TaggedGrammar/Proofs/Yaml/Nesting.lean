import Mathlib.Data.List.TakeWhile
import TaggedGrammar.Proofs.Yaml.Written
import TaggedGrammar.Yaml.Tree

/-!
# The data of written documents

The tokens of a node place what is read of it where the next node comes, those of items and
entries add to the collection that is open. Only a list in an entry is left open behind its items,
until the next key or the end of the mapping closes it; `Nesting.Settles` says that a state is
complete but for that.

## Main statements

* `Nesting.takes_node`, `Nesting.takes_value`, `Nesting.takes_items`, `Nesting.takes_entries`: the
  tokens of data.
* `documentDatum_of_takes`, `documentDatum_ne_ok`: the data of a document, and a fault in it.
* `datum_writeList`, `datum_writeList_ne_ok`: what is read of a written list.
-/

namespace TaggedGrammar.Yaml

/-! ### What is read of written data -/

mutual

/-- What is read of a datum that has been written. A scalar is a text, and of a key that is read
twice the first place and the last value count. -/
def recalledDatum : Datum → Datum
  | .list ds => .list (recalledItems ds)
  | .mapping es => .mapping (Table.ofList (recalledEntries es)).entries
  | .text s => .text (recalled false s)
  | d => .text (String.ofList (plainScalarChars d))

@[inherit_doc recalledDatum]
def recalledItems : List Datum → List Datum
  | [] => []
  | d :: ds => recalledDatum d :: recalledItems ds

@[inherit_doc recalledDatum]
def recalledEntries : List (String × Datum) → List (String × Datum)
  | [] => []
  | (k, d) :: es =>
    (recalled (isSimpleKey k.toList) k, recalledDatum d) :: recalledEntries es

end

theorem recalledItems_eq_map (ds : List Datum) : recalledItems ds = ds.map recalledDatum := by
  induction ds with
  | nil => rfl
  | cons d ds ih => rw [recalledItems, ih, List.map_cons]

theorem recalledEntries_eq_map (es : List (String × Datum)) :
    recalledEntries es =
      es.map fun e => (recalled (isSimpleKey e.1.toList) e.1, recalledDatum e.2) := by
  induction es with
  | nil => rfl
  | cons e es ih => rw [recalledEntries, ih, List.map_cons]

/-! ### Tokens one after the other -/

namespace Nesting

/-- Tokens are taken one after the other without a fault. -/
def Takes (s : Nesting) (ts : List Token) (t : Nesting) : Prop := ts.foldlM take s = .ok t

theorem Takes.nil (s : Nesting) : s.Takes [] s := rfl

theorem Takes.cons {s t u : Nesting} {x : Token} {ts : List Token} (h : s.take x = .ok t)
    (hrest : t.Takes ts u) : s.Takes (x :: ts) u := by
  unfold Takes
  rw [List.foldlM_cons, h]
  exact hrest

theorem Takes.append {s t u : Nesting} {ts us : List Token} (h : s.Takes ts t)
    (hrest : t.Takes us u) : s.Takes (ts ++ us) u := by
  unfold Takes
  rw [List.foldlM_append, h]
  exact hrest

/-! ### Open collections -/

/-- The state in which a collection without a name is the innermost. -/
def within (s : Nesting) (g : Growing) : Nesting :=
  { s with levels := ⟨g, none⟩ :: s.levels, pending := none }

/-- No property stands before the next node, and closing a loose sequence, if one is the innermost
collection, leads to another state. -/
structure Settles (s t : Nesting) : Prop where
  pending : s.pending = none
  closeLoose : s.closeLoose = some t

section Steps

variable {s t : Nesting} {g g' : Growing} {d : Datum}

theorem take_of_takeSound {x : Token} (hp : s.pending = none) (hx : ∀ e, x ≠ .fault e)
    (h : s.takeSound x = some t) : s.take x = .ok t := by
  have hknown : s.hasUnknownTag = false := by
    simp [hasUnknownTag, hp]
  unfold take
  split
  · exact absurd rfl (hx _)
  · simp [hknown, h, orMalformed]

theorem settle_eq_self (hp : s.pending = none) : s.settle = some s := by
  simp [settle, hp]

theorem takesNode_of_place (h : s.place d = some t) : s.takesNode = true := by
  unfold place at h
  unfold takesNode
  split at h
  · split at h
    · assumption
    · cases h
  · rw [Growing.takesNode_eq_isSome _ d]
    obtain ⟨g', hg, -⟩ := Option.map_eq_some_iff.mp h
    rw [hg]
    rfl

theorem place_within (hg : g.takeNode d = some g') (hadmits : g.admits d = true) :
    (s.within g).place d = some (s.within g') := by
  simp [place, within, hg, hadmits]

theorem take_text {x : String} (hp : s.pending = none) (h : s.place (.text x) = some t) :
    s.take (.scalar x) = .ok t := by
  refine take_of_takeSound hp nofun ?_
  have hanchor : s.anchor = none := by
    simp [anchor, hp]
  have hsame : { s with pending := none, anchors := s.anchors } = s := by
    rw [← hp]
  simp only [takeSound, takeText, hanchor, Anchors.declare, Anchors.define, hsame, h]

theorem take_opening {form : Form} (hp : s.pending = none) (hnode : s.takesNode = true) :
    s.take (.opening form) = .ok (s.within (.ofForm form)) := by
  refine take_of_takeSound hp nofun ?_
  have hanchor : s.anchor = none := by
    simp [anchor, hp]
  simp [takeSound, openLevel, hnode, hanchor, Anchors.declare, within]

theorem closeLevel_within {forms : List Form} (hp : s.pending = none)
    (hform : forms.contains g.form = true) (h : s.place g.finish = some t) :
    (s.within g).closeLevel forms = some t := by
  have hsame : { s with levels := s.levels, pending := none, anchors := s.anchors } = s := by
    rw [← hp]
  simp only [closeLevel, within, hform, if_true, Anchors.define]
  rw [← h, hsame]

theorem settles_within (hform : g.form = .blockSequence ∨ g.form = .blockMapping) :
    (s.within g).Settles (s.within g) := by
  refine ⟨rfl, ?_⟩
  rcases hform with h | h <;> simp [closeLoose, form?, within, h]

theorem take_closing {form : Form} (hp : s.pending = none) (hform : g.form = form)
    (h : s.place g.finish = some t) : (s.within g).take (.closing form) = .ok t := by
  refine take_of_takeSound rfl nofun ?_
  rw [takeSound, settle_eq_self rfl]
  exact closeLevel_within hp (by simp [hform]) h

theorem take_blockEnd {u : Nesting} (hu : u.Settles (s.within g)) (hp : s.pending = none)
    (hform : g.form = .blockSequence ∨ g.form = .blockMapping) (h : s.place g.finish = some t) :
    u.take .blockEnd = .ok t := by
  refine take_of_takeSound hu.pending nofun ?_
  rw [takeSound, settle_eq_self hu.pending, Option.bind_some, hu.closeLoose]
  exact closeLevel_within hp (by rcases hform with h | h <;> simp [h]) h

theorem markLevel_within {m : Mark} (hg : g.takeMark m = some g') :
    (s.within g).markLevel m = some (s.within g') := by
  simp [markLevel, within, hg]

theorem take_mark {u : Nesting} {m : Mark} (hm : m = .key ∨ m = .value)
    (hu : u.Settles (s.within g)) (hg : g.takeMark m = some g') :
    u.take (.mark m) = .ok (s.within g') := by
  refine take_of_takeSound hu.pending nofun ?_
  have hmark : u.takeSound (.mark m) = (u.settle.bind Nesting.closeLoose).bind fun t =>
      t.markLevel m := by
    rcases hm with rfl | rfl <;> rfl
  rw [hmark, settle_eq_self hu.pending, Option.bind_some, hu.closeLoose]
  exact markLevel_within hg

theorem take_entry (hform : g.form = .blockSequence ∨ g.form = .looseSequence)
    (hg : g.takeMark .entry = some g') : (s.within g).take (.mark .entry) = .ok (s.within g') := by
  refine take_of_takeSound rfl nofun ?_
  have hother : ((s.within g).form? == some .blockMapping) = false := by
    rcases hform with h | h <;> simp [form?, within, h]
  simp only [takeSound, takeMark, hother, Bool.false_and, Bool.false_eq_true, if_false]
  rw [settle_eq_self rfl]
  exact markLevel_within hg

/-- A hyphen in the place of a value opens a loose sequence. -/
theorem take_entry_loose (hform : g.form = .blockMapping) (hnode : g.takesNode = true)
    (hg : (Growing.ofForm .looseSequence).takeMark .entry = some g') :
    (s.within g).take (.mark .entry) = .ok ((s.within g).within g') := by
  refine take_of_takeSound rfl nofun ?_
  have hopen : ((s.within g).form? == some .blockMapping && (s.within g).takesNode) = true := by
    simp [form?, within, hform, takesNode, hnode]
  have hlevel : (s.within g).openLevel .looseSequence =
      some ((s.within g).within (.ofForm .looseSequence)) := by
    simp [openLevel, within, takesNode, hnode, anchor, Anchors.declare]
  simp only [takeSound, takeMark, hopen, if_true, hlevel, Option.bind_some]
  exact markLevel_within hg

end Steps

/-! ### Collections of data -/

/-- A list between two items. -/
def listOf (form : Form) (items : List Datum) : Growing := ⟨form, items, [], .between⟩

/-- A mapping between two entries. -/
def mapOf (t : Table Datum) : Growing := ⟨.blockMapping, [], t.entries, .between⟩

/-- A mapping at the value of a key. -/
def valueOf (t : Table Datum) (k : String) : Growing := ⟨.blockMapping, [], t.entries, .value k⟩

section Collections

variable {s t u : Nesting} {d : Datum} {table : Table Datum} {k : String}

/-- A collection without items or entries is taken as a node. -/
theorem takes_brackets {form : Form} (hp : s.pending = none) (h : s.place d = some t)
    (hfinish : (Growing.ofForm form).finish = d) : s.Takes [.opening form, .closing form] t := by
  have hform : (Growing.ofForm form).form = form := by
    cases form <;> rfl
  exact .cons (take_opening hp (takesNode_of_place h))
    (.cons (take_closing hp hform (hfinish.symm ▸ h)) (.nil t))

theorem takes_item {form : Form} {items : List Datum} {ts : List Token}
    (hform : form = .blockSequence ∨ form = .looseSequence)
    (h : (s.within ⟨form, items, [], .ready⟩).Takes ts u) :
    (s.within (listOf form items)).Takes (.mark .entry :: ts) u := by
  refine .cons (take_entry hform ?_) h
  rcases hform with rfl | rfl <;> rfl

theorem place_item {form : Form} (hform : form = .blockSequence ∨ form = .looseSequence)
    (items : List Datum) (d : Datum) :
    (s.within ⟨form, items, [], .ready⟩).place d = some (s.within (listOf form (d :: items))) := by
  rcases hform with rfl | rfl
  · exact place_within rfl rfl
  · exact place_within rfl rfl

theorem place_value (d : Datum) :
    (s.within (valueOf table k)).place d = some (s.within (mapOf (table.insert k d))) :=
  place_within rfl rfl

theorem takes_entry {v : Nesting} {ts : List Token} (hu : u.Settles (s.within (mapOf table)))
    (h : (s.within (valueOf table k)).Takes ts v) :
    u.Takes (.mark .key :: .scalar k :: .mark .value :: ts) v := by
  have hkey : u.take (.mark .key) = .ok (s.within ⟨.blockMapping, [], table.entries, .key⟩) :=
    take_mark (Or.inl rfl) hu rfl
  have htext : (s.within ⟨.blockMapping, [], table.entries, .key⟩).take (.scalar k) =
      .ok (s.within ⟨.blockMapping, [], table.entries, .keyed k⟩) :=
    take_text rfl (place_within rfl rfl)
  have hvalue : (s.within ⟨.blockMapping, [], table.entries, .keyed k⟩).take (.mark .value) =
      .ok (s.within (valueOf table k)) :=
    take_mark (Or.inr rfl) (settles_within (Or.inr rfl)) rfl
  exact .cons hkey (.cons htext (.cons hvalue h))

theorem takes_list {ds : List Datum} {ts : List Token} (hp : s.pending = none)
    (h : s.place (.list ds) = some t)
    (hitems : (s.within (listOf .blockSequence [])).Takes ts
      (s.within (listOf .blockSequence ds.reverse))) :
    s.Takes (.opening .blockSequence :: ts ++ [.blockEnd]) t := by
  have hend : (s.within (listOf .blockSequence ds.reverse)).take .blockEnd = .ok t := by
    refine take_blockEnd (settles_within (Or.inl rfl)) hp (Or.inl rfl) ?_
    have hfinish : (listOf .blockSequence ds.reverse).finish = .list ds :=
      congrArg Datum.list (List.reverse_reverse ds)
    rw [hfinish, h]
  exact .cons (take_opening hp (takesNode_of_place h)) (hitems.append (.cons hend (.nil t)))

theorem takes_mapping {v : Nesting} {ts : List Token} (hp : s.pending = none)
    (h : s.place (.mapping table.entries) = some t)
    (hentries : (s.within (mapOf .empty)).Takes ts v) (hv : v.Settles (s.within (mapOf table))) :
    s.Takes (.opening .blockMapping :: ts ++ [.blockEnd]) t := by
  have hend : v.take .blockEnd = .ok t := take_blockEnd hv hp (Or.inr rfl) h
  exact .cons (take_opening hp (takesNode_of_place h)) (hentries.append (.cons hend (.nil t)))

/-- The items of a loose sequence, whose first hyphen opens it. -/
theorem takes_loose {ts : List Token}
    (h : ((s.within (valueOf table k)).within (listOf .looseSequence [])).Takes
      (.mark .entry :: ts) u) :
    (s.within (valueOf table k)).Takes (.mark .entry :: ts) u := by
  have hopen : ((s.within (valueOf table k)).within (listOf .looseSequence [])).take
      (.mark .entry) = (s.within (valueOf table k)).take (.mark .entry) := by
    rw [take_entry (Or.inr rfl) rfl, take_entry_loose rfl rfl rfl]
    rfl
  unfold Takes at h ⊢
  rwa [List.foldlM_cons, hopen, ← List.foldlM_cons] at h

theorem settles_loose {ds : List Datum} :
    ((s.within (valueOf table k)).within (listOf .looseSequence ds.reverse)).Settles
      (s.within (mapOf (table.insert k (.list ds)))) := by
  have hfinish : (listOf .looseSequence ds.reverse).finish = .list ds :=
    congrArg Datum.list (List.reverse_reverse ds)
  have hplace : (s.within (valueOf table k)).place (listOf .looseSequence ds.reverse).finish =
      some (s.within (mapOf (table.insert k (.list ds)))) := by
    rw [hfinish]
    exact place_value (.list ds)
  have hclose : ((s.within (valueOf table k)).within
      (listOf .looseSequence ds.reverse)).closeLevel [.looseSequence] =
      some (s.within (mapOf (table.insert k (.list ds)))) := closeLevel_within rfl rfl hplace
  exact ⟨rfl, hclose⟩

end Collections

/-! ### Data -/

mutual

/-- The tokens of a node place what is read of it. -/
theorem takes_node {s t : Nesting} (d : Datum) (hp : s.pending = none)
    (h : s.place (recalledDatum d) = some t) : s.Takes (nodeTokens false d) t := by
  match d with
  | .null | .flag _ | .integer _ | .text _ => exact .cons (take_text hp h) (.nil t)
  | .list [] => exact takes_brackets hp h rfl
  | .list (d :: ds) =>
      have hitems := takes_items (s := s) (Or.inl rfl) [] (d :: ds)
      rw [List.append_nil] at hitems
      exact takes_list hp h hitems
  | .mapping [] => exact takes_brackets hp h rfl
  | .mapping (e :: es) =>
      obtain ⟨v, hentries, hv⟩ := takes_entries .empty (e :: es) (settles_within (Or.inr rfl))
      exact takes_mapping hp h hentries hv

/-- The tokens of a value place what is read of it in its entry. -/
theorem takes_value {s : Nesting} {k : String} {table : Table Datum} (d : Datum) :
    ∃ u, (s.within (valueOf table k)).Takes (nodeTokens true d) u ∧
      u.Settles (s.within (mapOf (table.insert k (recalledDatum d)))) := by
  match d with
  | .null | .flag _ | .integer _ | .text _ =>
      exact ⟨_, .cons (take_text rfl (place_value _)) (.nil _), settles_within (Or.inr rfl)⟩
  | .list [] => exact ⟨_, takes_brackets rfl (place_value _) rfl, settles_within (Or.inr rfl)⟩
  | .list (d :: ds) =>
      have hitems := takes_items (s := s.within (valueOf table k)) (Or.inr rfl) [] (d :: ds)
      rw [List.append_nil] at hitems
      exact ⟨_, takes_loose hitems, settles_loose⟩
  | .mapping [] => exact ⟨_, takes_brackets rfl (place_value _) rfl, settles_within (Or.inr rfl)⟩
  | .mapping (e :: es) =>
      obtain ⟨v, hentries, hv⟩ := takes_entries .empty (e :: es) (settles_within (Or.inr rfl))
      exact ⟨_, takes_mapping rfl (place_value _) hentries hv, settles_within (Or.inr rfl)⟩

/-- The tokens of items put what is read of them into a list. -/
theorem takes_items {s : Nesting} {form : Form}
    (hform : form = .blockSequence ∨ form = .looseSequence) (items ds : List Datum) :
    (s.within (listOf form items)).Takes (itemTokens ds)
      (s.within (listOf form ((recalledItems ds).reverse ++ items))) := by
  match ds with
  | [] => exact .nil _
  | d :: ds =>
      have hplace : (s.within ⟨form, items, [], .ready⟩).place (recalledDatum d) =
          some (s.within (listOf form (recalledDatum d :: items))) :=
        place_item hform items (recalledDatum d)
      have hnode := takes_node d rfl hplace
      rw [recalledItems, List.reverse_cons, List.append_assoc]
      exact (takes_item hform hnode).append (takes_items hform (recalledDatum d :: items) ds)

/-- The tokens of entries put what is read of them into a mapping. -/
theorem takes_entries {s u : Nesting} (table : Table Datum) (es : List (String × Datum))
    (hu : u.Settles (s.within (mapOf table))) :
    ∃ v, u.Takes (entryTokens es) v ∧
      v.Settles (s.within (mapOf (table.insertMany (recalledEntries es)))) := by
  match es with
  | [] => exact ⟨u, .nil u, hu⟩
  | (k, d) :: es =>
      let k' := recalled (isSimpleKey k.toList) k
      have hvalue : ∃ v, (s.within (valueOf table k')).Takes
          (nodeTokens (isSimpleKey k.toList) d) v ∧
            v.Settles (s.within (mapOf (table.insert k' (recalledDatum d)))) := by
        cases hsimple : isSimpleKey k.toList with
        | true => exact takes_value d
        | false =>
            exact ⟨_, takes_node d rfl (place_value (recalledDatum d)),
              settles_within (Or.inr rfl)⟩
      obtain ⟨v, htakes, hv⟩ := hvalue
      obtain ⟨w, hmore, hw⟩ := takes_entries (table.insert k' (recalledDatum d)) es hv
      exact ⟨w, (takes_entry hu htakes).append hmore, hw⟩

end

/-! ### Documents -/

theorem isOutside_of_take {s t : Nesting} {x : Token} (h : s.take x = .ok t) :
    isOutside x = false := by
  cases hx : isOutside x with
  | false => rfl
  | true =>
      have htake : s.take x = if s.hasUnknownTag then .error .malformed else .error .malformed := by
        cases x <;> first | rfl | cases hx
      rw [htake, ite_self] at h
      cases h

theorem Takes.isOutside {s t : Nesting} {ts : List Token} (h : s.Takes ts t) :
    ∀ x ∈ ts, isOutside x = false := by
  induction ts generalizing s with
  | nil => simp
  | cons x ts ih =>
      unfold Takes at h
      rw [List.foldlM_cons] at h
      cases hx : s.take x with
      | error e =>
          rw [hx] at h
          cases h
      | ok u =>
          rw [hx] at h
          exact List.forall_mem_cons.mpr ⟨isOutside_of_take hx, ih h⟩

end Nesting

section Documents

variable {s t : Nesting} {x : Token} {ts : List Token} {d : Datum}

theorem splitDirectives_of_isOutside (h : isOutside x = false) (ts : List Token) :
    splitDirectives (x :: ts) = .ok ([], x :: ts) := by
  have hnone : (directive? x).isSome = false := by
    cases x <;> first | rfl | cases h
  simp [splitDirectives, hnone, areCompatible]

theorem documentDatum_of_isOutside (h : isOutside x = false) (ts : List Token) :
    documentDatum (x :: ts) = contentDatum [] (x :: ts) := by
  unfold documentDatum
  rw [splitDirectives_of_isOutside h]
  cases x <;> first | rfl | cases h

/-- The data of tokens that place a node outside of all collections. -/
theorem documentDatum_of_takes (hne : ts ≠ [])
    (h : (Nesting.initial []).Takes ts { Nesting.initial [] with root := some d }) :
    documentDatum ts = .ok d := by
  obtain ⟨x, ts, rfl⟩ := List.exists_cons_of_ne_nil hne
  have houtside := h.isOutside
  have hall : (x :: ts).takeWhile (fun t => !isOutside t) = x :: ts := by
    rw [List.takeWhile_eq_self_iff]
    intro t hm
    simp [houtside t hm]
  have htakes : (x :: ts).foldlM Nesting.take (Nesting.initial []) =
      .ok { Nesting.initial [] with root := some d } := h
  rw [documentDatum_of_isOutside (houtside x List.mem_cons_self)]
  simp only [contentDatum, hall, htakes, List.drop_length, bind, Except.bind]
  rfl

/-! ### Faults -/

theorem Nesting.not_takes_of_fault {e : Fault} (h : .fault e ∈ ts) : ¬s.Takes ts t := by
  induction ts generalizing s with
  | nil => cases h
  | cons x ts ih =>
      unfold Nesting.Takes
      rw [List.foldlM_cons]
      intro htakes
      cases hx : s.take x with
      | error e' =>
          rw [hx] at htakes
          cases htakes
      | ok u =>
          rw [hx] at htakes
          rcases List.mem_cons.mp h with rfl | hts
          · cases hx
          · exact ih hts htakes

theorem expectEnd_ne_ok {e : Fault} (h : .fault e ∈ ts) : expectEnd ts ≠ .ok () := by
  unfold expectEnd
  cases hbehind : ts.dropWhile (· == .documentEnd) with
  | nil => cases List.dropWhile_eq_nil_iff.mp hbehind _ h
  | cons x behind =>
      dsimp only
      split <;> rintro ⟨⟩

theorem contentDatum_ne_ok {e : Fault} (h : .fault e ∈ ts) (handles : List String) :
    contentDatum handles ts ≠ .ok d := by
  intro hd
  simp only [contentDatum, bind, Except.bind] at hd
  cases hcontent : (ts.takeWhile fun x => !isOutside x).foldlM Nesting.take
      (Nesting.initial handles) with
  | error e' =>
      rw [hcontent] at hd
      cases hd
  | ok last =>
      simp only [hcontent] at hd
      cases hlast : orMalformed last.finish? with
      | error e' =>
          rw [hlast] at hd
          cases hd
      | ok s =>
          simp only [hlast] at hd
          cases hend : expectEnd (ts.drop (ts.takeWhile fun x => !isOutside x).length) with
          | error e' =>
              rw [hend] at hd
              cases hd
          | ok u =>
              have hsplit : (ts.takeWhile fun x => !isOutside x) ++
                  ts.drop (ts.takeWhile fun x => !isOutside x).length = ts :=
                List.prefix_iff_eq_append.mp (List.takeWhile_prefix _)
              rw [← hsplit] at h
              rcases List.mem_append.mp h with hm | hm
              · exact Nesting.not_takes_of_fault hm hcontent
              · exact expectEnd_ne_ok hm hend

theorem mem_of_splitDirectives {e : Fault} (h : .fault e ∈ ts) {ds : List Directive}
    {rest : List Token} (hsplit : splitDirectives ts = .ok (ds, rest)) : .fault e ∈ rest := by
  unfold splitDirectives at hsplit
  dsimp only at hsplit
  split at hsplit
  · cases hsplit
    rw [← List.take_append_drop ((ts.takeWhile fun x => (directive? x).isSome).filterMap
      directive?).length ts] at h
    refine (List.mem_append.mp h).resolve_left fun hm => ?_
    have hlength : ((ts.takeWhile fun x => (directive? x).isSome).filterMap directive?).length ≤
        (ts.takeWhile fun x => (directive? x).isSome).length := List.length_filterMap_le _ _
    have hfront := List.prefix_of_prefix_length_le (List.take_prefix _ ts)
      (List.takeWhile_prefix fun x => (directive? x).isSome)
      (Nat.le_trans (List.length_take_le _ ts) hlength)
    cases List.mem_takeWhile_imp (hfront.subset hm)
  · cases hsplit

/-- A text with a fault has no data. -/
theorem documentDatum_ne_ok {e : Fault} (h : .fault e ∈ ts) : documentDatum ts ≠ .ok d := by
  unfold documentDatum
  cases hsplit : splitDirectives ts with
  | error e' => rintro ⟨⟩
  | ok p =>
      obtain ⟨ds, rest⟩ := p
      have hrest := mem_of_splitDirectives h hsplit
      cases rest with
      | nil => cases hrest
      | cons x rest =>
          cases x with
          | documentStart =>
              have hm : .fault e ∈ rest := (List.mem_cons.mp hrest).resolve_left (by simp)
              exact contentDatum_ne_ok hm _
          | documentEnd => rintro ⟨⟩
          | fault e' => rintro ⟨⟩
          | _ =>
              cases ds with
              | nil => exact contentDatum_ne_ok hrest []
              | cons x ds => rintro ⟨⟩

end Documents

/-- What is read of a written list. -/
theorem datum_writeList {ds : List Datum} (h : HasRoomItems 0 ds) (hreach : ReachableItems ds) :
    datum (writeList ds) = .ok (.list (recalledItems ds)) := by
  unfold datum
  rw [tokens_writeList h hreach]
  cases ds with
  | nil => exact documentDatum_of_takes nofun (Nesting.takes_brackets rfl rfl rfl)
  | cons d ds =>
      refine documentDatum_of_takes nofun (Nesting.takes_list rfl rfl ?_)
      simpa using Nesting.takes_items (Or.inl rfl) [] (d :: ds)

/-- A written list with a key that does not reach its colon is refused. -/
theorem datum_writeList_ne_ok {ds : List Datum} {d : Datum} (h : HasRoomItems 0 ds)
    (hreach : ¬ReachableItems ds) : datum (writeList ds) ≠ .ok d := by
  obtain ⟨e, hfault⟩ := exists_fault_mem_tokens h hreach
  exact documentDatum_ne_ok hfault

end TaggedGrammar.Yaml
