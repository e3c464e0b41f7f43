/-!
# Tables in order of first insertion

A `Table` maps texts to values and remembers the order in which its keys first arrived:
writing to a key that is present keeps its place, and a key that was removed goes to the end
when it is written again.

## Main statements

* `Table.keys_insert_of_mem`, `Table.keys_insert_of_not_mem`: what an insertion does to the keys.
* `Table.get?_insert_self`, `Table.get?_insert_of_ne`: what it does to the values.
* `Table.get?_erase_self`, `Table.get?_erase_of_ne`: what a removal does to the values.
-/

namespace TaggedGrammar

/-- A finite map from texts whose entries stand in the order of first insertion. -/
structure Table (α : Type) where
  entries : List (String × α)
  nodup : (entries.map Prod.fst).Nodup

namespace Table

variable {α : Type}

@[ext] theorem ext {s t : Table α} (h : s.entries = t.entries) : s = t := by
  cases s; cases t; simpa using h

instance [DecidableEq α] : DecidableEq (Table α) := fun s t =>
  if h : s.entries = t.entries then isTrue (ext h) else isFalse fun e => h (e ▸ rfl)

/-- The table without entries. -/
def empty : Table α := ⟨[], List.nodup_nil⟩

instance : EmptyCollection (Table α) := ⟨empty⟩

instance : Inhabited (Table α) := ⟨empty⟩

/-- The keys in order. -/
def keys (t : Table α) : List String := t.entries.map Prod.fst

/-- The values in order. -/
def values (t : Table α) : List α := t.entries.map Prod.snd

/-- The number of entries. -/
def size (t : Table α) : Nat := t.entries.length

/-- Whether the table has no entry. -/
def isEmpty (t : Table α) : Bool := t.entries.isEmpty

/-- Whether a key is present. -/
def contains (t : Table α) (k : String) : Bool := t.keys.contains k

/-- The value at a key. -/
def get? (t : Table α) (k : String) : Option α := t.entries.lookup k

/-- Writes a value into a list of entries: in place where the key is present, else at the
end. -/
def insertEntry (k : String) (v : α) : List (String × α) → List (String × α)
  | [] => [(k, v)]
  | e :: es => if e.1 = k then (k, v) :: es else e :: insertEntry k v es

/-- Takes the entry of a key out of a list of entries. -/
def eraseEntry (k : String) (es : List (String × α)) : List (String × α) :=
  es.filter fun e => e.1 != k

theorem map_fst_insertEntry_of_mem {k : String} {v : α} {es : List (String × α)}
    (h : k ∈ es.map Prod.fst) : (insertEntry k v es).map Prod.fst = es.map Prod.fst := by
  induction es with
  | nil => simp at h
  | cons e es ih =>
    by_cases he : e.1 = k
    · simp [insertEntry, he]
    · have hk : k ∈ es.map Prod.fst := by
        simp only [List.map_cons, List.mem_cons] at h
        exact h.resolve_left fun hk => he hk.symm
      simp only [insertEntry, he, if_false, List.map_cons, ih hk]

theorem insertEntry_of_not_mem {k : String} {v : α} {es : List (String × α)}
    (h : k ∉ es.map Prod.fst) : insertEntry k v es = es ++ [(k, v)] := by
  induction es with
  | nil => rfl
  | cons e es ih =>
    simp only [List.map_cons, List.mem_cons, not_or] at h
    have he : e.1 ≠ k := fun hk => h.1 hk.symm
    simp only [insertEntry, he, if_false, ih h.2, List.cons_append]

theorem nodup_insertEntry {k : String} {v : α} {es : List (String × α)}
    (h : (es.map Prod.fst).Nodup) : ((insertEntry k v es).map Prod.fst).Nodup := by
  by_cases hk : k ∈ es.map Prod.fst
  · rw [map_fst_insertEntry_of_mem hk]; exact h
  · rw [insertEntry_of_not_mem hk, List.map_append, List.nodup_append]
    refine ⟨h, by simp, fun a ha b hb => ?_⟩
    simp only [List.map_cons, List.map_nil, List.mem_singleton] at hb
    exact fun e => hk (hb ▸ e ▸ ha)

/-- Writes a value at a key. -/
def insert (t : Table α) (k : String) (v : α) : Table α :=
  ⟨insertEntry k v t.entries, nodup_insertEntry t.nodup⟩

/-- Removes a key. -/
def erase (t : Table α) (k : String) : Table α :=
  ⟨eraseEntry k t.entries, t.nodup.sublist ((List.filter_sublist).map Prod.fst)⟩

/-- Writes the entries of a list one after the other. -/
def insertMany (t : Table α) (es : List (String × α)) : Table α :=
  es.foldl (fun t e => t.insert e.1 e.2) t

/-- The table of a list of entries: a repeated key keeps its first place and takes its last
value. -/
def ofList (es : List (String × α)) : Table α := empty.insertMany es

/-! ### Keys -/

theorem contains_iff_mem {t : Table α} {k : String} : t.contains k = true ↔ k ∈ t.keys := by
  simp [contains]

@[simp] theorem keys_empty : (empty : Table α).keys = [] := rfl

theorem keys_insert_of_mem {t : Table α} {k : String} {v : α} (h : k ∈ t.keys) :
    (t.insert k v).keys = t.keys := map_fst_insertEntry_of_mem h

theorem keys_insert_of_not_mem {t : Table α} {k : String} {v : α} (h : k ∉ t.keys) :
    (t.insert k v).keys = t.keys ++ [k] := by
  simp [keys, insert, insertEntry_of_not_mem h]

theorem entries_insert_of_not_mem {t : Table α} {k : String} {v : α} (h : k ∉ t.keys) :
    (t.insert k v).entries = t.entries ++ [(k, v)] := insertEntry_of_not_mem h

/-! ### Values -/

@[simp] theorem get?_empty (k : String) : (empty : Table α).get? k = none := rfl

theorem lookup_cons (k : String) (e : String × α) (es : List (String × α)) :
    List.lookup k (e :: es) = if k = e.1 then some e.2 else es.lookup k := by
  change (match k == e.1 with
    | true => some e.2
    | false => es.lookup k) = _
  by_cases h : k = e.1
  · rw [beq_iff_eq.mpr h, if_pos h]
  · rw [beq_eq_false_iff_ne.mpr h, if_neg h]

theorem lookup_insertEntry (k k' : String) (v : α) (es : List (String × α)) :
    (insertEntry k v es).lookup k' = if k' = k then some v else es.lookup k' := by
  induction es with
  | nil => simp only [insertEntry, lookup_cons]
  | cons e es ih =>
    by_cases he : e.1 = k
    · by_cases h : k' = k <;> simp only [insertEntry, he, if_true, lookup_cons, h, if_false]
    · by_cases h : k' = e.1
      · have hk : k' ≠ k := fun e' => he (h ▸ e')
        simp only [insertEntry, he, if_false, lookup_cons, h, if_true]
      · simp only [insertEntry, he, if_false, lookup_cons, h, ih]

theorem get?_insert (t : Table α) (k k' : String) (v : α) :
    (t.insert k v).get? k' = if k' = k then some v else t.get? k' :=
  lookup_insertEntry k k' v t.entries

@[simp] theorem get?_insert_self (t : Table α) (k : String) (v : α) :
    (t.insert k v).get? k = some v := by simp [get?_insert]

theorem get?_insert_of_ne {t : Table α} {k k' : String} {v : α} (h : k' ≠ k) :
    (t.insert k v).get? k' = t.get? k' := by simp [get?_insert, h]

theorem lookup_eraseEntry (k k' : String) (es : List (String × α)) :
    (eraseEntry k es).lookup k' = if k' = k then none else es.lookup k' := by
  induction es with
  | nil => simp only [eraseEntry, List.filter_nil, List.lookup_nil, ite_self]
  | cons e es ih =>
    have ih' : (es.filter fun e => e.1 != k).lookup k' =
        if k' = k then none else es.lookup k' := ih
    by_cases he : e.1 = k
    · have hf : (e.1 != k) = false := by simpa using he
      rw [eraseEntry, List.filter_cons, hf, if_neg (by simp), ih', lookup_cons]
      by_cases h : k' = k
      · rw [if_pos h, if_pos h]
      · rw [if_neg h, if_neg h, if_neg (fun e' => h (e'.trans he))]
    · have hf : (e.1 != k) = true := by simpa using he
      by_cases h : k' = e.1
      · have hk : k' ≠ k := fun e' => he (h ▸ e')
        simp only [eraseEntry, List.filter_cons, hf, if_true, lookup_cons, h, he, if_false]
      · simp only [eraseEntry, List.filter_cons, hf, if_true, lookup_cons, h, if_false, ih']

theorem get?_erase (t : Table α) (k k' : String) :
    (t.erase k).get? k' = if k' = k then none else t.get? k' :=
  lookup_eraseEntry k k' t.entries

@[simp] theorem get?_erase_self (t : Table α) (k : String) : (t.erase k).get? k = none := by
  simp [get?_erase]

theorem get?_erase_of_ne {t : Table α} {k k' : String} (h : k' ≠ k) :
    (t.erase k).get? k' = t.get? k' := by simp [get?_erase, h]

example : (((ofList [("b", 1), ("a", 2)]).insert "b" 3).entries) = [("b", 3), ("a", 2)] := by
  decide

end Table

end TaggedGrammar
