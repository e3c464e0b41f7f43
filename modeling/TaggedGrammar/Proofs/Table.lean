import TaggedGrammar.Table

/-!
# Tables that gather entries

Two tables agree when no key has different values in them. Writing entries that agree with a
table leaves its entries alone and only puts new ones behind them. Taking out again the keys
that were put behind a table gives back that table.

## Main statements

* `Table.ext_get?`: keys in order and their values tell a table.
* `Table.prefix_insertMany`: entries that agree are only added behind.
* `Table.get?_insertMany`: the values after writing the entries of a table.
* `Table.ofList_eq_iff`: when a table is made of as many entries as it has.
* `Table.isWrittenBy_iff`: the keys and the values of a table that is made of entries.
* `Table.foldl_erase_added`: entries put behind a table can be taken out again.
-/

namespace TaggedGrammar

namespace Table

variable {α : Type}

/-- No key has different values in the two tables. -/
def Agrees (s t : Table α) : Prop :=
  ∀ k v w, s.get? k = some v → t.get? k = some w → v = w

theorem Agrees.symm {s t : Table α} (h : s.Agrees t) : t.Agrees s := by
  intro k v w hv hw
  exact (h k w v hw hv).symm

/-! ### Values and entries -/

theorem get?_eq_none_iff {t : Table α} {k : String} : t.get? k = none ↔ k ∉ t.keys := by
  simp only [get?, keys, List.lookup_eq_none_iff, List.mem_map, not_exists, not_and]
  constructor
  · intro h e he hk
    exact absurd (h e he) (by simp [hk])
  · intro h e he
    simpa using fun hk : k = e.1 => h e he hk.symm

theorem contains_eq_false_iff {t : Table α} {k : String} :
    t.contains k = false ↔ k ∉ t.keys := by
  rw [← Bool.not_eq_true, contains_iff_mem]

theorem contains_eq_false_iff_get? {t : Table α} {k : String} :
    t.contains k = false ↔ t.get? k = none :=
  contains_eq_false_iff.trans get?_eq_none_iff.symm

theorem lookup_eq_some_iff {es : List (String × α)} (h : (es.map Prod.fst).Nodup)
    {k : String} {v : α} : es.lookup k = some v ↔ (k, v) ∈ es := by
  induction es with
  | nil => simp
  | cons e es ih =>
      obtain ⟨hne, hes⟩ := List.nodup_cons.mp h
      rw [lookup_cons, List.mem_cons]
      by_cases hk : k = e.1
      · have hout : (k, v) ∉ es := fun hm => hne (hk ▸ List.mem_map_of_mem hm)
        rw [if_pos hk, or_iff_left hout, Option.some.injEq, Prod.ext_iff]
        simp [hk, eq_comm]
      · have hh : (k, v) ≠ e := fun he => hk (congrArg Prod.fst he)
        rw [if_neg hk, ih hes, or_iff_right hh]

theorem get?_eq_some_iff {t : Table α} {k : String} {v : α} :
    t.get? k = some v ↔ (k, v) ∈ t.entries := lookup_eq_some_iff t.nodup

/-- A value stays where entries are only added behind. -/
theorem get?_of_extends {s t : Table α} (h : s.entries <+: t.entries) {k : String} {v : α}
    (hv : s.get? k = some v) : t.get? k = some v :=
  get?_eq_some_iff.mpr (h.subset (get?_eq_some_iff.mp hv))

theorem mem_entries_insert {t : Table α} {k : String} {v : α} {e : String × α}
    (h : e ∈ (t.insert k v).entries) : e = (k, v) ∨ e ∈ t.entries := by
  have hget : (t.insert k v).get? e.1 = some e.2 := get?_eq_some_iff.mpr h
  rw [get?_insert] at hget
  split at hget
  · rename_i hk
    exact Or.inl (Prod.ext hk (Option.some.inj hget).symm)
  · exact Or.inr (get?_eq_some_iff.mp hget)

theorem insertEntry_insertEntry (k : String) (v w : α) (es : List (String × α)) :
    insertEntry k w (insertEntry k v es) = insertEntry k w es := by
  induction es with
  | nil => simp [insertEntry]
  | cons e es ih =>
      by_cases he : e.1 = k
      · simp [insertEntry, he]
      · simp [insertEntry, he, ih]

/-- Of the values that are written at a key the last one stays. -/
theorem insert_insert_self (t : Table α) (k : String) (v w : α) :
    (t.insert k v).insert k w = t.insert k w :=
  ext (insertEntry_insertEntry k v w t.entries)

/-- If the keys are those that were written, in the order of their first occurrence, they still are
after one more is written. -/
theorem keys_insert_of_eraseDups {t : Table α} {written : List String}
    (h : t.keys = written.eraseDups) (k : String) (v : α) :
    (t.insert k v).keys = (written ++ [k]).eraseDups := by
  rw [List.eraseDups_append, ← h]
  by_cases hk : k ∈ written
  · have hin : k ∈ t.keys := h ▸ List.mem_eraseDups.mpr hk
    rw [keys_insert_of_mem hin]
    simp [List.removeAll, hk]
  · have hout : k ∉ t.keys := fun hm => hk (List.mem_eraseDups.mp (h ▸ hm))
    rw [keys_insert_of_not_mem hout]
    simp [List.removeAll, hk, List.eraseDups_cons]

theorem eraseDups_of_nodup {ks : List String} (h : ks.Nodup) : ks.eraseDups = ks := by
  induction ks with
  | nil => rfl
  | cons k ks ih =>
      obtain ⟨hk, hks⟩ := List.nodup_cons.mp h
      have hfilter : (ks.filter fun b => !b == k) = ks :=
        List.filter_eq_self.mpr fun b hb => by simpa using fun he : b = k => hk (he ▸ hb)
      rw [List.eraseDups_cons, hfilter, ih hks]

/-! ### Tables with the same entries -/

theorem map_some_entries (t : Table α) :
    t.entries.map some = t.keys.map fun k => (t.get? k).map (k, ·) := by
  rw [keys, List.map_map]
  refine List.map_congr_left fun e he => ?_
  rw [Function.comp_apply, get?_eq_some_iff.mpr he]
  rfl

/-- A table is told by its keys in order and their values. -/
theorem ext_get? {s t : Table α} (hkeys : s.keys = t.keys)
    (h : ∀ k ∈ s.keys, s.get? k = t.get? k) : s = t := by
  apply ext
  apply (List.map_inj_right fun _ _ => Option.some.inj).mp
  rw [map_some_entries, map_some_entries, ← hkeys]
  exact List.map_congr_left fun k hk => by rw [h k hk]

/-! ### Changing the values -/

/-- The table with every value changed by a function. -/
def mapValues {β : Type} (f : α → β) (t : Table α) : Table β where
  entries := t.entries.map fun e => (e.1, f e.2)
  nodup := by
    rw [List.map_map]
    exact t.nodup

theorem get?_mapValues {β : Type} (t : Table α) (f : α → β) (k : String) :
    (t.mapValues f).get? k = (t.get? k).map f := by
  have hentries : ∀ es : List (String × α),
      (es.map fun e => (e.1, f e.2)).lookup k = (es.lookup k).map f := by
    intro es
    induction es with
    | nil => rfl
    | cons e es ih =>
        rw [List.map_cons, lookup_cons, lookup_cons, ih]
        split <;> rfl
  exact hentries t.entries

theorem insertEntry_map {β : Type} (f : α → β) (k : String) (v : α) (es : List (String × α)) :
    insertEntry k (f v) (es.map fun e => (e.1, f e.2)) =
      (insertEntry k v es).map fun e => (e.1, f e.2) := by
  induction es with
  | nil => rfl
  | cons e es ih =>
      by_cases he : e.1 = k
      · simp [insertEntry, he]
      · simp [insertEntry, he, ih]

theorem insert_mapValues {β : Type} (f : α → β) (t : Table α) (k : String) (v : α) :
    (t.mapValues f).insert k (f v) = (t.insert k v).mapValues f :=
  ext (insertEntry_map f k v t.entries)

/-! ### Writing entries that agree -/

theorem insertEntry_of_mem {k : String} {v : α} {es : List (String × α)}
    (h : (es.map Prod.fst).Nodup) (hm : (k, v) ∈ es) : insertEntry k v es = es := by
  induction es with
  | nil => cases hm
  | cons e es ih =>
      obtain ⟨hne, hes⟩ := List.nodup_cons.mp h
      rcases List.mem_cons.mp hm with rfl | hm
      · simp [insertEntry]
      · have he : e.1 ≠ k := fun he => hne (he ▸ List.mem_map_of_mem hm)
        simp only [insertEntry, he, if_false, ih hes hm]

/-- Writing the value that a key has changes nothing. -/
theorem insert_of_get? {t : Table α} {k : String} {v : α} (h : t.get? k = some v) :
    t.insert k v = t :=
  ext (insertEntry_of_mem t.nodup (get?_eq_some_iff.mp h))

theorem prefix_insert {t : Table α} {k : String} {v : α} (h : ∀ w, t.get? k = some w → w = v) :
    t.entries <+: (t.insert k v).entries := by
  cases hk : t.get? k with
  | none =>
      rw [entries_insert_of_not_mem (get?_eq_none_iff.mp hk)]
      exact List.prefix_append _ _
  | some w =>
      obtain rfl := h w hk
      have he : t.insert k w = t := insert_of_get? hk
      exact he.symm ▸ List.prefix_rfl

@[simp] theorem insertMany_nil (t : Table α) : t.insertMany [] = t := rfl

theorem insertMany_cons (t : Table α) (e : String × α) (es : List (String × α)) :
    t.insertMany (e :: es) = (t.insert e.1 e.2).insertMany es := rfl

theorem get?_insertMany_entries (t : Table α) {es : List (String × α)}
    (h : (es.map Prod.fst).Nodup) (k : String) :
    (t.insertMany es).get? k = (es.lookup k).or (t.get? k) := by
  induction es generalizing t with
  | nil => simp
  | cons e es ih =>
      obtain ⟨hne, hes⟩ := List.nodup_cons.mp h
      rw [insertMany_cons, ih _ hes, get?_insert, lookup_cons]
      by_cases hk : k = e.1
      · have hnone : es.lookup k = none := by
          rw [List.lookup_eq_none_iff]
          intro p hp
          simpa using fun he : k = p.1 => hne (hk ▸ he ▸ List.mem_map_of_mem hp)
        rw [if_pos hk, if_pos hk, hnone]
        rfl
      · rw [if_neg hk, if_neg hk]

/-- Behind the writing of a table its values stand first. -/
theorem get?_insertMany (s t : Table α) (k : String) :
    (s.insertMany t.entries).get? k = (t.get? k).or (s.get? k) :=
  get?_insertMany_entries s t.nodup k

theorem prefix_insertMany_entries {t : Table α} {es : List (String × α)}
    (hes : (es.map Prod.fst).Nodup)
    (h : ∀ k v w, (k, v) ∈ es → t.get? k = some w → w = v) :
    t.entries <+: (t.insertMany es).entries := by
  induction es generalizing t with
  | nil => exact List.prefix_rfl
  | cons e es ih =>
      obtain ⟨hne, hes⟩ := List.nodup_cons.mp hes
      have hfirst : t.entries <+: (t.insert e.1 e.2).entries :=
        prefix_insert fun w hw => h e.1 e.2 w List.mem_cons_self hw
      refine hfirst.trans (ih hes ?_)
      intro k v w hm hw
      have hk : k ≠ e.1 := fun hk => hne (hk ▸ List.mem_map_of_mem hm)
      rw [get?_insert_of_ne hk] at hw
      exact h k v w (List.mem_cons_of_mem _ hm) hw

/-- Writing a table that agrees only adds entries behind. -/
theorem prefix_insertMany {s t : Table α} (h : s.Agrees t) :
    s.entries <+: (s.insertMany t.entries).entries :=
  prefix_insertMany_entries t.nodup fun k v w hm hw => h k w v hw (get?_eq_some_iff.mpr hm)

/-- New entries come behind those that are there. -/
theorem entries_insertMany_of_nodup {t : Table α} {es : List (String × α)}
    (h : ((t.entries ++ es).map Prod.fst).Nodup) : (t.insertMany es).entries = t.entries ++ es := by
  induction es generalizing t with
  | nil => simp
  | cons e es ih =>
      rw [List.append_cons] at h ⊢
      have hnew : e.1 ∉ t.keys := by
        rw [List.map_append, List.map_append, List.append_assoc, List.nodup_append] at h
        exact fun hm => h.2.2 e.1 hm e.1 (by simp) rfl
      have hentries : (t.insert e.1 e.2).entries = t.entries ++ [e] :=
        entries_insert_of_not_mem hnew
      rw [insertMany_cons, ih (hentries ▸ h), hentries]

/-- A table is made of its entries. -/
theorem ofList_entries (t : Table α) : ofList t.entries = t :=
  ext (entries_insertMany_of_nodup t.nodup)

/-! ### Writing changed values -/

theorem insertMany_mapValues {β : Type} (f : α → β) (t : Table α) (es : List (String × α)) :
    (t.mapValues f).insertMany (es.map fun e => (e.1, f e.2)) = (t.insertMany es).mapValues f := by
  induction es generalizing t with
  | nil => rfl
  | cons e es ih =>
      rw [List.map_cons, insertMany_cons, insertMany_cons, insert_mapValues, ih]

/-- A table of changed values. -/
theorem ofList_mapValues {β : Type} (f : α → β) (es : List (String × α)) :
    ofList (es.map fun e => (e.1, f e.2)) = (ofList es).mapValues f :=
  insertMany_mapValues f empty es

/-! ### Entries that are written twice -/

theorem size_insert_of_mem {t : Table α} {k : String} {v : α} (h : k ∈ t.keys) :
    (t.insert k v).size = t.size := by
  have hkeys := congrArg List.length (keys_insert_of_mem h (v := v))
  simpa [keys, size] using hkeys

theorem size_insert_of_not_mem {t : Table α} {k : String} {v : α} (h : k ∉ t.keys) :
    (t.insert k v).size = t.size + 1 := by
  rw [size, entries_insert_of_not_mem h]
  exact List.length_append

theorem size_insertMany_le (t : Table α) (es : List (String × α)) :
    (t.insertMany es).size ≤ t.size + es.length := by
  induction es generalizing t with
  | nil => exact Nat.le_refl _
  | cons e es ih =>
      have hmore := ih (t.insert e.1 e.2)
      rw [insertMany_cons, List.length_cons]
      by_cases hk : e.1 ∈ t.keys
      · rw [size_insert_of_mem hk] at hmore
        omega
      · rw [size_insert_of_not_mem hk] at hmore
        omega

/-- If no key is repeated, the entries that are written are those that stand in the table. -/
theorem entries_insertMany_of_size {t : Table α} {es : List (String × α)}
    (h : (t.insertMany es).size = t.size + es.length) :
    (t.insertMany es).entries = t.entries ++ es := by
  induction es generalizing t with
  | nil => exact (List.append_nil _).symm
  | cons e es ih =>
      rw [insertMany_cons, List.length_cons] at h
      have hle := size_insertMany_le (t.insert e.1 e.2) es
      have hnew : e.1 ∉ t.keys := by
        intro hk
        rw [size_insert_of_mem hk] at hle
        omega
      rw [insertMany_cons, ih (by rw [size_insert_of_not_mem hnew]; omega),
        entries_insert_of_not_mem hnew, List.append_assoc]
      rfl

/-- A table is made of as many entries as it has only if these are its entries. -/
theorem ofList_eq_iff {t : Table α} {es : List (String × α)} (h : es.length = t.entries.length) :
    ofList es = t ↔ es = t.entries := by
  constructor
  · rintro rfl
    have hsize : (empty.insertMany es).size = (empty : Table α).size + es.length :=
      h.symm.trans (Nat.zero_add _).symm
    exact (entries_insertMany_of_size hsize).symm
  · rintro rfl
    exact ofList_entries t

/-! ### Keys and values that were written -/

theorem keys_insertMany {t : Table α} {written : List String} (h : t.keys = written.eraseDups)
    (es : List (String × α)) :
    (t.insertMany es).keys = (written ++ es.map Prod.fst).eraseDups := by
  induction es generalizing t written with
  | nil =>
      rw [List.map_nil, List.append_nil]
      exact h
  | cons e es ih =>
      rw [List.map_cons, List.append_cons]
      exact ih (keys_insert_of_eraseDups h e.1 e.2)

theorem get?_insertMany_reverse (t : Table α) (es : List (String × α)) (k : String) :
    (t.insertMany es).get? k = (es.reverse.lookup k).or (t.get? k) := by
  induction es generalizing t with
  | nil => rfl
  | cons e es ih =>
      rw [insertMany_cons, ih, List.reverse_cons, List.lookup_append, Option.or_assoc, get?_insert,
        lookup_cons]
      split <;> rfl

/-- The keys of a table are those of some entries, in the order of their first occurrence, and its
values are those of the last entries of their keys. -/
structure IsWrittenBy (t : Table α) (es : List (String × α)) : Prop where
  keys : t.keys = (es.map Prod.fst).eraseDups
  get? : ∀ k, t.get? k = es.reverse.lookup k

theorem isWrittenBy_ofList (es : List (String × α)) : (ofList es).IsWrittenBy es where
  keys := by
    have hempty : (empty : Table α).keys = ([] : List String).eraseDups := rfl
    exact keys_insertMany hempty es
  get? k := (get?_insertMany_reverse empty es k).trans Option.or_none

theorem isWrittenBy_iff {t : Table α} {es : List (String × α)} :
    t.IsWrittenBy es ↔ t = ofList es := by
  constructor
  · intro h
    have hmade := isWrittenBy_ofList es
    exact ext_get? (h.keys.trans hmade.keys.symm) fun k _ => (h.get? k).trans (hmade.get? k).symm
  · rintro rfl
    exact isWrittenBy_ofList es

/-! ### Agreeing with more entries -/

/-- What agrees with a table agrees with what stood there before entries were added. -/
theorem Agrees.of_extends {s later t : Table α} (h : later.Agrees t)
    (hp : s.entries <+: later.entries) : s.Agrees t := by
  intro k v w hv hw
  exact h k v w (get?_of_extends hp hv) hw

/-- What agrees with a table after the writing of another agrees with that other. -/
theorem Agrees.of_insertMany {s written t : Table α}
    (h : (s.insertMany written.entries).Agrees t) : written.Agrees t := by
  intro k v w hv hw
  refine h k v w ?_ hw
  rw [get?_insertMany, hv]
  rfl

/-! ### Taking out what was added -/

theorem entries_foldl_erase (t : Table α) (ks : List String) :
    (ks.foldl erase t).entries = t.entries.filter fun e => decide (e.1 ∉ ks) := by
  induction ks generalizing t with
  | nil => exact (List.filter_eq_self.mpr fun e _ => by simp).symm
  | cons k ks ih =>
      rw [List.foldl_cons, ih]
      change (t.entries.filter fun e => e.1 != k).filter _ = _
      rw [List.filter_filter]
      congr 1
      funext e
      by_cases he : e.1 = k <;> simp [he]

/-- A key that is taken out has no value any more. -/
theorem get?_foldl_erase {t : Table α} {ks : List String} {k : String} (h : k ∈ ks) :
    (ks.foldl erase t).get? k = none := by
  rw [get?_eq_none_iff, keys, entries_foldl_erase]
  intro hm
  obtain ⟨e, he, rfl⟩ := List.mem_map.mp hm
  exact of_decide_eq_true (List.mem_filter.mp he).2 h

theorem foldl_erase_added {s t : Table α} {added : List (String × α)}
    (h : t.entries = s.entries ++ added) : (added.map Prod.fst).foldl erase t = s := by
  apply ext
  have hn : ((s.entries ++ added).map Prod.fst).Nodup := h ▸ t.nodup
  rw [List.map_append, List.nodup_append] at hn
  rw [entries_foldl_erase, h, List.filter_append]
  have hkeep : s.entries.filter (fun e => decide (e.1 ∉ added.map Prod.fst)) = s.entries := by
    rw [List.filter_eq_self]
    intro e he
    simp only [decide_eq_true_eq]
    intro hm
    exact hn.2.2 e.1 (List.mem_map_of_mem he) e.1 hm rfl
  have hdrop : added.filter (fun e => decide (e.1 ∉ added.map Prod.fst)) = [] := by
    rw [List.filter_eq_nil_iff]
    intro e he
    simpa using ⟨e.2, he⟩
  rw [hkeep, hdrop, List.append_nil]

end Table

end TaggedGrammar
