import TaggedGrammar.Proofs.Context

/-!
# Accepting and merging

A context accepts a group if it can gather the tags of the group without changing any of its own.
Merging writes the tags of the group without asking, so whether a group is accepted can be told
from what merging it would leave, and whether two accepted groups go together from the two orders
in which they can be merged.

## Main statements

* `Table.agrees_iff_kept`: tables agree if writing one into the other changes no value there.
* `Table.agrees_iff_same_values`: they agree if it does not matter which is written last.
* `Table.insertMany_insertMany_self`: writing a table twice is writing it once.
* `Context.accepts_by_merging`: what accepting has to do with merging.
-/

namespace TaggedGrammar

namespace Table

variable {α : Type}

/-! ### Values that are kept -/

/-- Tables agree if writing the one into the other leaves all values there as they were. -/
theorem agrees_iff_kept {s t : Table α} :
    s.Agrees t ↔ ∀ k v, s.get? k = some v → (s.insertMany t.entries).get? k = some v := by
  constructor
  · intro h k v hv
    exact get?_of_extends (prefix_insertMany h) hv
  · intro h k v w hv hw
    have hkept := h k v hv
    rw [get?_insertMany, hw] at hkept
    exact (Option.some.inj hkept).symm

/-- A table agrees with what was written into it last. -/
theorem agrees_insertMany (s t : Table α) : (s.insertMany t.entries).Agrees t := by
  intro k v w hv hw
  rw [get?_insertMany, hw] at hv
  exact (Option.some.inj hv).symm

/-- Writing entries that stand in a table changes nothing. -/
theorem insertMany_of_get? {t : Table α} {es : List (String × α)}
    (h : ∀ e ∈ es, t.get? e.1 = some e.2) : t.insertMany es = t := by
  induction es with
  | nil => rfl
  | cons e es ih =>
      obtain ⟨he, hes⟩ := List.forall_mem_cons.mp h
      rw [insertMany_cons, insert_of_get? he, ih hes]

theorem insertMany_insertMany_self (s t : Table α) :
    (s.insertMany t.entries).insertMany t.entries = s.insertMany t.entries := by
  refine insertMany_of_get? fun e he => ?_
  have hvalue : t.get? e.1 = some e.2 := get?_eq_some_iff.mpr he
  rw [get?_insertMany, hvalue]
  rfl

/-! ### Two tables that are written -/

/-- If a table agrees with another, it still does after a third is written into it just if that
one agrees with the other as well. -/
theorem Agrees.insertMany_iff {s t u : Table α} (h : s.Agrees u) :
    (s.insertMany t.entries).Agrees u ↔ t.Agrees u := by
  refine ⟨Agrees.of_insertMany, fun htu k v w hv hw => ?_⟩
  rw [get?_insertMany] at hv
  rcases Option.or_eq_some_iff.mp hv with ht | ⟨-, hs⟩
  · exact htu k v w ht hw
  · exact h k v w hs hw

/-- Two tables agree if both orders of writing them give the same values. -/
theorem agrees_iff_same_values (s : Table α) {t u : Table α} :
    t.Agrees u ↔ ∀ k, ((s.insertMany t.entries).insertMany u.entries).get? k =
      ((s.insertMany u.entries).insertMany t.entries).get? k := by
  simp only [get?_insertMany]
  constructor
  · intro h k
    cases ht : t.get? k with
    | none => rfl
    | some v =>
        cases hu : u.get? k with
        | none => rfl
        | some w => exact congrArg some (h k v w ht hu).symm
  · intro h k v w hv hw
    have hk := h k
    rw [hv, hw] at hk
    exact (Option.some.inj hk).symm

end Table

namespace Context

/-- A group is accepted just if merging it leaves every tag of the context as it was. Once merged
it is accepted, and merging it again changes nothing. Of two accepted groups each is still accepted
after the other is merged just if the other is after this one, and just if both orders of merging
give the same tags. -/
theorem accepts_by_merging (ctx : Context) (g : Group) :
    (ctx.accepts g = true ↔ ∀ key value, ctx.tags.get? key = some value →
      (ctx.merge g).tags.get? key = some value) ∧
    (ctx.merge g).accepts g = true ∧ (ctx.merge g).merge g = ctx.merge g ∧
    ∀ h : Group, ctx.accepts g = true → ctx.accepts h = true →
      ((ctx.merge g).accepts h = true ↔ (ctx.merge h).accepts g = true) ∧
      ((ctx.merge h).accepts g = true ↔ ∀ key,
        ((ctx.merge g).merge h).tags.get? key = ((ctx.merge h).merge g).tags.get? key) := by
  refine ⟨accepts_iff.trans Table.agrees_iff_kept,
    accepts_iff.mpr (ctx.tags.agrees_insertMany g.tags), ?_, ?_⟩
  · exact congrArg (fun tags => { ctx with tags := tags })
      (ctx.tags.insertMany_insertMany_self g.tags)
  · intro h hg hh
    have hgh : (ctx.merge g).accepts h = true ↔ g.tags.Agrees h.tags :=
      accepts_iff.trans (accepts_iff.mp hh).insertMany_iff
    have hhg : (ctx.merge h).accepts g = true ↔ h.tags.Agrees g.tags :=
      accepts_iff.trans (accepts_iff.mp hg).insertMany_iff
    have hsymm : g.tags.Agrees h.tags ↔ h.tags.Agrees g.tags :=
      ⟨Table.Agrees.symm, Table.Agrees.symm⟩
    exact ⟨hgh.trans (hsymm.trans hhg.symm),
      hhg.trans (hsymm.symm.trans (Table.agrees_iff_same_values ctx.tags))⟩

/-- A big ox and a small hen both suit a farm, but not each other. -/
theorem accepts_by_merging_ox_hen :
    let ox : Group := ⟨[], .ofList [("size", "big"), ("place", "farm")], ""⟩
    let hen : Group := ⟨[], .ofList [("place", "farm"), ("size", "small")], ""⟩
    let ctx : Context := .ofTables (.ofList [("mood", "glad"), ("place", "farm")]) ∅
    ctx.accepts ox = true ∧ ctx.accepts hen = true ∧
      (ctx.merge ox).accepts hen = false ∧ (ctx.merge hen).accepts ox = false ∧
      ¬∀ key, ((ctx.merge ox).merge hen).tags.get? key =
        ((ctx.merge hen).merge ox).tags.get? key := by
  intro ox hen ctx
  have hox : ctx.accepts ox = true := by decide
  have hhen : ctx.accepts hen = true := by decide
  obtain ⟨heach, hvalues⟩ := (ctx.accepts_by_merging ox).2.2.2 hen hox hhen
  have hsecond : (ctx.merge ox).accepts hen = false := by decide
  have hfirst : (ctx.merge hen).accepts ox ≠ true :=
    mt heach.mpr (Bool.eq_false_iff.mp hsecond)
  exact ⟨hox, hhen, hsecond, Bool.eq_false_iff.mpr hfirst, mt hvalues.mpr hfirst⟩

end Context

end TaggedGrammar
