import TaggedGrammar.Expansion.Selection

/-!
# What a selection can do

The rules on offer are the rules of all groups that the context accepts, one group after the
other. A selection that fails leaves the state as it was. One that succeeds takes a single draw
and answers with the rule on offer at its value.

## Main statements

* `getElem?_rulesInRow`: the rule at an index is that element of the rules in a row.
* `Grammar.select_eq_chosen`: a selection where there are rules on offer.
* `Grammar.error_of_select`: why a selection fails.
* `Grammar.select_cases`: everything that a selection can do.
-/

namespace TaggedGrammar

/-- The rules of groups in a row, each with its group. -/
def rulesInRow (gs : List Group) : List (Group × Rule) :=
  gs.flatMap fun g => g.rules.map fun r => (g, r)

@[simp] theorem rulesInRow_cons (g : Group) (gs : List Group) :
    rulesInRow (g :: gs) = (g.rules.map fun r => (g, r)) ++ rulesInRow gs := rfl

@[simp] theorem length_rulesInRow (gs : List Group) :
    (rulesInRow gs).length = ruleTotal gs := by
  induction gs with
  | nil => rfl
  | cons g gs ih => simp [ruleTotal, ih]

theorem mem_rulesInRow {gs : List Group} {g : Group} {r : Rule} :
    (g, r) ∈ rulesInRow gs ↔ g ∈ gs ∧ r ∈ g.rules := by
  simp only [rulesInRow, List.mem_flatMap, List.mem_map, Prod.mk.injEq]
  constructor
  · rintro ⟨g', hg, r', hr, rfl, rfl⟩
    exact ⟨hg, hr⟩
  · rintro ⟨hg, hr⟩
    exact ⟨g, hg, r, hr, rfl, rfl⟩

theorem getElem?_rulesInRow {gs : List Group} {i : Nat} (h : i < ruleTotal gs) :
    (rulesInRow gs)[i]? = some (ruleAt gs i h) := by
  induction gs generalizing i with
  | nil => exact absurd h (Nat.not_lt_zero _)
  | cons g gs ih =>
      unfold ruleAt
      rw [rulesInRow_cons, List.getElem?_append, List.length_map]
      split
      · rename_i hi
        rw [List.getElem?_map, List.getElem?_eq_getElem hi]
        rfl
      · exact ih _

namespace State

/-- The state after a rule was selected. -/
def choose (s : State) (name : String) (group : Group) (rule : Rule) (index total : Nat) :
    State :=
  ((s.draw 0 total).withContext (s.context.merge group)).note
    (.selected name group rule index total)

@[simp] theorem context_choose (s : State) (name : String) (group : Group) (rule : Rule)
    (index total : Nat) :
    (s.choose name group rule index total).context = s.context.merge group := rfl

@[simp] theorem chance_choose (s : State) (name : String) (group : Group) (rule : Rule)
    (index total : Nat) :
    (s.choose name group rule index total).chance = s.chance.draw 0 total := rfl

@[simp] theorem events_choose (s : State) (name : String) (group : Group) (rule : Rule)
    (index total : Nat) :
    (s.choose name group rule index total).events =
      s.events.push (.selected name group rule index total) := rfl

end State

namespace Grammar

/-- The rules that a selection may answer with. -/
def offered (ctx : Context) (c : Cognate) : List (Group × Rule) := rulesInRow (suitable ctx c)

theorem mem_offered {ctx : Context} {c : Cognate} {group : Group} {rule : Rule} :
    (group, rule) ∈ offered ctx c ↔
      group ∈ c.groups ∧ ctx.accepts group = true ∧ rule ∈ group.rules := by
  rw [offered, mem_rulesInRow, suitable, List.mem_filter, and_assoc]

/-- The index that the next draw of a selection gives is below the number of rules on offer. -/
theorem index_lt {total : Nat} (chance : Chance) (h : 0 < total) :
    (chance.value 0 total).toNat < total := by
  have hp : (0 : Int) < total := by omega
  have hl := Chance.le_value (c := chance) hp
  have hv := Chance.value_lt (c := chance) hp
  omega

theorem select_eq_chosen (g : Grammar) {name : String} {s : State} {c : Cognate}
    (hc : g.get? name = some c) {group : Group} {rule : Rule} {index : Nat}
    (hi : (s.chance.value 0 (offered s.context c).length).toNat = index)
    (hr : (offered s.context c)[index]? = some (group, rule)) :
    g.select name s =
      (.ok rule, s.choose name group rule index (offered s.context c).length) := by
  obtain ⟨hlt, he⟩ := List.getElem?_eq_some_iff.mp hr
  have hmem : (group, rule) ∈ offered s.context c := he ▸ List.getElem_mem hlt
  have hgroup : group ∈ suitable s.context c := (mem_rulesInRow.mp hmem).1
  have hsome : (suitable s.context c).isEmpty = false := by
    cases hs : suitable s.context c with
    | nil => rw [hs] at hgroup; cases hgroup
    | cons first rest => rfl
  have hgroups : c.isEmpty = false := by
    cases hs : c.groups with
    | nil => rw [suitable, hs] at hgroup; cases hgroup
    | cons first rest => simp [Cognate.isEmpty, hs]
  have htotal : (offered s.context c).length = ruleTotal (suitable s.context c) :=
    length_rulesInRow _
  rw [htotal] at hi hlt ⊢
  have hpos : 0 < ruleTotal (suitable s.context c) := by omega
  have hrule : ruleAt (suitable s.context c) index hlt = (group, rule) :=
    Option.some.inj ((getElem?_rulesInRow hlt).symm.trans hr)
  subst hi
  simp only [select, hc, hgroups, hsome, hpos, Bool.false_eq_true, if_false, dif_pos, hrule]
  rfl

/-- Why a selection fails. -/
theorem error_of_select {g : Grammar} {name : String} {s : State} {e : ExpansionError}
    (h : (g.select name s).1 = .error e) :
    e = .unknownCognate name ∨ e = .emptyCognate name ∨
      e = .noSuitableGroups name s.context.tags := by
  unfold select at h
  split at h
  · exact Or.inl (Except.error.inj h).symm
  · split at h
    · exact Or.inr (Or.inl (Except.error.inj h).symm)
    · simp only at h
      split at h
      · exact Or.inr (Or.inr (Except.error.inj h).symm)
      · split at h
        · cases h
        · exact Or.inr (Or.inl (Except.error.inj h).symm)

/-- A selection fails and leaves the state alone, or answers with a rule on offer. -/
theorem select_cases (g : Grammar) (name : String) (s : State) :
    (∃ e, g.select name s = (.error e, s)) ∨
    ∃ c group rule index, g.get? name = some c ∧
      (s.chance.value 0 (offered s.context c).length).toNat = index ∧
      (offered s.context c)[index]? = some (group, rule) ∧
      g.select name s =
        (.ok rule, s.choose name group rule index (offered s.context c).length) := by
  cases hc : g.get? name with
  | none =>
      refine Or.inl ⟨.unknownCognate name, ?_⟩
      simp only [select, hc]
  | some c =>
      by_cases h : 0 < (offered s.context c).length
      · obtain ⟨⟨group, rule⟩, hr⟩ : ∃ p, (offered s.context c)[
            (s.chance.value 0 (offered s.context c).length).toNat]? = some p :=
          ⟨_, List.getElem?_eq_getElem (index_lt s.chance h)⟩
        exact Or.inr ⟨c, group, rule, _, rfl, rfl, hr, select_eq_chosen g hc rfl hr⟩
      · rw [offered, length_rulesInRow] at h
        apply Or.inl
        simp only [select, hc, dif_neg h]
        split
        · exact ⟨.emptyCognate name, rfl⟩
        · split
          · exact ⟨.noSuitableGroups name s.context.tags, rfl⟩
          · exact ⟨.emptyCognate name, rfl⟩

end Grammar

end TaggedGrammar
