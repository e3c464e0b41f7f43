import TaggedGrammar.Expansion.State
import TaggedGrammar.Grammar.Basic

/-!
# Selection of a rule

A rule of a cognate is drawn from all rules of the groups that the context accepts, each with
the same weight. The tags of its group are merged into the context.

## Main statements

* `ruleAt_mem`: the rule at an index belongs to the group that it comes with, and that group
  is one of the list.
-/

namespace TaggedGrammar

/-- The rule at an index into the rules of all groups, one group after the other, with the
group that it belongs to. -/
def ruleAt : (gs : List Group) → (i : Nat) → i < ruleTotal gs → Group × Rule
  | [], _, h => absurd h (Nat.not_lt_zero _)
  | g :: gs, i, h =>
    if hi : i < g.rules.length then (g, g.rules[i])
    else ruleAt gs (i - g.rules.length) (by simp only [ruleTotal] at h; omega)

theorem ruleAt_mem {gs : List Group} {i : Nat} (h : i < ruleTotal gs) :
    (ruleAt gs i h).1 ∈ gs ∧ (ruleAt gs i h).2 ∈ (ruleAt gs i h).1.rules := by
  induction gs generalizing i with
  | nil => exact absurd h (Nat.not_lt_zero _)
  | cons g gs ih =>
    unfold ruleAt
    split
    · exact ⟨List.mem_cons_self, List.getElem_mem _⟩
    · obtain ⟨hg, hr⟩ := ih (i := i - g.rules.length) (by simp only [ruleTotal] at h; omega)
      exact ⟨List.mem_cons_of_mem _ hg, hr⟩

namespace Grammar

/-- The groups of a cognate that a context accepts. -/
def suitable (ctx : Context) (c : Cognate) : List Group := c.groups.filter ctx.accepts

/-- Draws a rule of a cognate and merges the tags of its group into the context. -/
def select (g : Grammar) (name : String) : Step Rule := fun s =>
  match g.get? name with
  | none => (.error (.unknownCognate name), s)
  | some c =>
    if c.isEmpty then (.error (.emptyCognate name), s)
    else
      let groups := suitable s.context c
      if groups.isEmpty then (.error (.noSuitableGroups name s.context.tags), s)
      else
        let total := ruleTotal groups
        let index := (s.chance.value 0 total).toNat
        if h : 0 < total then
          have hp : (0 : Int) < total := by omega
          have hv := Chance.value_lt (c := s.chance) hp
          have hl := Chance.le_value (c := s.chance) hp
          let (group, rule) := ruleAt groups index (by omega)
          let t := (s.draw 0 total).withContext (s.context.merge group)
          (.ok rule, t.note (.selected name group rule index total))
        else (.error (.emptyCognate name), s)

end Grammar

end TaggedGrammar
