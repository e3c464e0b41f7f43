import TaggedGrammar.Proofs.Expansion.Derivation

/-!
# Steering an expansion

A step yields a value if some answers to its draws make it give that value. The answers are
those of the parts, one part after the other, so every derivation can be followed by a run: a
selection is steered to its rule, and a range to its number.

## Main statements

* `Derivation.yields`: a derivation is followed if its height does not exceed the levels left.
* `Grammar.generateWith_eq_ok_iff_derivation`: the texts that a cognate can be expanded to are
  those with a derivation that is not too high.
-/

namespace TaggedGrammar

namespace Chance

/-- The next integers of the stream. -/
def Supplies (c : Chance) (answers : List Int) : Prop :=
  ∀ i x, answers[i]? = some x → c.stream (c.draws.size + i) = x

/-- The same stream, so many draws later. -/
structure Advanced (c c' : Chance) (draws : Nat) : Prop where
  stream : c'.stream = c.stream
  size : c'.draws.size = c.draws.size + draws

theorem supplies_ofStream (answers : List Int) :
    (ofStream fun i => answers.getD i 0).Supplies answers := by
  intro i x h
  change answers.getD (0 + i) 0 = x
  rw [Nat.zero_add, List.getD_eq_getElem?_getD, h]
  rfl

theorem Supplies.left {c : Chance} {xs ys : List Int} (h : c.Supplies (xs ++ ys)) :
    c.Supplies xs := by
  intro i x hx
  obtain ⟨hi, -⟩ := List.getElem?_eq_some_iff.mp hx
  exact h i x ((List.getElem?_append_left hi).trans hx)

/-- After the first answers have been taken, the others come next. -/
theorem Supplies.right {c c' : Chance} {xs ys : List Int} (h : c.Supplies (xs ++ ys))
    (ha : c.Advanced c' xs.length) : c'.Supplies ys := by
  intro i y hy
  have hi : (xs ++ ys)[xs.length + i]? = some y := by
    rw [List.getElem?_append_right (Nat.le_add_right _ _), Nat.add_sub_cancel_left, hy]
  rw [ha.stream, ha.size, Nat.add_assoc]
  exact h (xs.length + i) y hi

theorem Supplies.head {c : Chance} {x : Int} (h : c.Supplies [x]) :
    c.stream c.draws.size = x := h 0 x rfl

theorem advanced_refl (c : Chance) : c.Advanced c 0 := ⟨rfl, rfl⟩

theorem Advanced.trans {c c' c'' : Chance} {m n : Nat} (h : c.Advanced c' m)
    (h' : c'.Advanced c'' n) : c.Advanced c'' (m + n) where
  stream := h'.stream.trans h.stream
  size := by rw [h'.size, h.size, Nat.add_assoc]

theorem advanced_draw (c : Chance) (lower upper : Int) : c.Advanced (c.draw lower upper) 1 where
  stream := rfl
  size := by rw [draws_draw, Array.size_push]

/-- A number of the interval is drawn by its distance from the lower bound. -/
theorem value_of_supplies {c : Chance} {lower upper k : Int} (hl : lower ≤ k) (hu : k < upper)
    (h : c.Supplies [k - lower]) : c.value lower upper = k := by
  have hmod : (k - lower).emod (upper - lower) = k - lower :=
    Int.emod_eq_of_lt (by omega) (by omega)
  rw [value, h.head, hmod]
  omega

end Chance

/-! ### Steps -/

namespace Step

variable {α β : Type} {step : Step α} {a : α} {ctx ctx' ctx'' : Context}

/-- Some answers to its draws make the step give the value and change the context so. -/
def Yields (step : Step α) (ctx : Context) (a : α) (ctx' : Context) : Prop :=
  ∃ answers, ∀ s : State, s.context = ctx → s.chance.Supplies answers →
    ∃ t, step s = (.ok a, t) ∧ t.context = ctx' ∧ s.chance.Advanced t.chance answers.length

/-- A step that takes no draw needs no answers. -/
theorem yields_of_eq (h : ∀ s : State, s.context = ctx → step s = (.ok a, s)) :
    step.Yields ctx a ctx :=
  ⟨[], fun s hs _ => ⟨s, h s hs, hs, s.chance.advanced_refl⟩⟩

theorem Yields.congr {step' : Step α} (h : step.Yields ctx a ctx')
    (he : ∀ s : State, s.context = ctx → step' s = step s) : step'.Yields ctx a ctx' := by
  obtain ⟨answers, h⟩ := h
  refine ⟨answers, ?_⟩
  intro s hs hsupplies
  rw [he s hs]
  exact h s hs hsupplies

theorem Yields.andThen {next : α → Step β} {b : β} (h : step.Yields ctx a ctx')
    (hn : (next a).Yields ctx' b ctx'') : (step.andThen next).Yields ctx b ctx'' := by
  obtain ⟨xs, h⟩ := h
  obtain ⟨ys, hn⟩ := hn
  refine ⟨xs ++ ys, ?_⟩
  intro s hs hsupplies
  obtain ⟨t, ht, htc, hta⟩ := h s hs hsupplies.left
  obtain ⟨u, hu, huc, hua⟩ := hn t htc (hsupplies.right hta)
  refine ⟨u, (andThen_of_eq ht).trans hu, huc, ?_⟩
  rw [List.length_append]
  exact hta.trans hua

theorem Yields.map (h : step.Yields ctx a ctx') (f : α → β) :
    (step.map f).Yields ctx (f a) ctx' := by
  obtain ⟨xs, h⟩ := h
  refine ⟨xs, ?_⟩
  intro s hs hsupplies
  obtain ⟨t, ht, htc, hta⟩ := h s hs hsupplies
  exact ⟨t, map_eq_ok_iff.mpr ⟨a, ht, rfl⟩, htc, hta⟩

theorem Yields.inFrame (h : step.Yields ctx.descend a ctx') :
    (step.inFrame).Yields ctx a ctx'.ascend := by
  obtain ⟨xs, h⟩ := h
  refine ⟨xs, ?_⟩
  intro s hs hsupplies
  obtain ⟨t, ht, htc, hta⟩ := h s.opened (congrArg Context.descend hs) hsupplies
  exact ⟨t.closed, inFrame_eq_ok_iff.mpr ⟨t, ht, rfl⟩, congrArg Context.ascend htc, hta⟩

end Step

variable {ctx ctx' : Context} {name text : String} {step : Step String}

theorem yields_boundOr_bound (h : ctx.binding? name = some text) :
    (boundOr name step).Yields ctx text ctx :=
  Step.yields_of_eq fun _ hs => boundOr_eq_ok_iff.mpr (Or.inl ⟨hs ▸ h, rfl⟩)

theorem yields_boundOr_unbound (hu : ctx.isBound name = false)
    (h : step.Yields ctx text ctx') : (boundOr name step).Yields ctx text ctx' := by
  apply h.congr
  intro s hs
  have hnone := Context.isBound_eq_false_iff.mp hu
  rw [boundOr, hs, hnone]

theorem yields_bindTo (event : String → String → Event) (h : step.Yields ctx text ctx') :
    (bindTo name event step).Yields ctx text (ctx'.bind name text) := by
  obtain ⟨xs, h⟩ := h
  refine ⟨xs, ?_⟩
  intro s hs hsupplies
  obtain ⟨t, ht, rfl, hta⟩ := h s hs hsupplies
  exact ⟨_, bindTo_eq_ok_iff.mpr ⟨t, ht, rfl⟩, rfl, hta⟩

theorem yields_applyCommand {c : Command} (h : Command.ofName? name = some c) :
    (applyCommand name text).Yields ctx (c.apply text) ctx :=
  Step.yields_of_eq fun _ _ => applyCommand_eq_ok_iff.mpr ⟨c, h, rfl, rfl⟩

theorem yields_drawNumber {lower upper k : Int} (hl : lower ≤ k) (hu : k < upper) :
    (drawNumber lower upper).Yields ctx (toString k) ctx := by
  refine ⟨[k - lower], fun s hs hsupplies => ⟨s.draw lower upper, ?_, hs, ?_⟩⟩
  · rw [drawNumber, Chance.value_of_supplies hl hu hsupplies]
  · exact s.chance.advanced_draw lower upper

theorem yields_assignment {expand : String → Step String} {rule : String}
    (hu : ctx.isBound name = false) (h : (expand rule).Yields ctx text ctx') :
    (evaluateToken expand (.assignment name rule)).Yields ctx text (ctx'.bind name text) := by
  obtain ⟨xs, h⟩ := h
  refine ⟨xs, ?_⟩
  rintro s rfl hsupplies
  obtain ⟨t, ht, rfl, hta⟩ := h s rfl hsupplies
  exact ⟨_, assignment_eq_ok_iff.mpr (Or.inr ⟨hu, t, ht, rfl⟩), rfl, hta⟩

namespace Grammar

variable {g : Grammar}

/-- Every rule of every group that is accepted can be selected. -/
theorem yields_select {c : Cognate} {group : Group} {rule : Rule}
    (hc : g.get? name = some c) (hgroup : group ∈ c.groups)
    (haccepts : ctx.accepts group = true) (hrule : rule ∈ group.rules) :
    (g.select name).Yields ctx rule (ctx.merge group) := by
  obtain ⟨index, hindex⟩ :=
    List.mem_iff_getElem?.mp (mem_offered.mpr ⟨hgroup, haccepts, hrule⟩)
  obtain ⟨hlt, -⟩ := List.getElem?_eq_some_iff.mp hindex
  refine ⟨[(index : Int) - 0], ?_⟩
  rintro s rfl hsupplies
  have hvalue : s.chance.value 0 (offered s.context c).length = index :=
    Chance.value_of_supplies (by omega) (by omega) hsupplies
  have htoNat : (s.chance.value 0 (offered s.context c).length).toNat = index := by
    rw [hvalue, Int.toNat_natCast]
  exact ⟨_, select_eq_chosen g hc htoNat hindex, rfl, s.chance.advanced_draw _ _⟩

/-- Selecting the rule and then following the derivation of its tokens expands the cognate. -/
theorem yields_expandCognate {levels : Nat} {c : Cognate} {group : Group} {rule : Rule}
    (hc : g.get? name = some c) (hgroup : group ∈ c.groups)
    (haccepts : ctx.accepts group = true) (hrule : rule ∈ group.rules)
    (hbody : (evaluateTokens (g.expandCognate levels) rule.tokens).Yields
      (ctx.merge group).descend text ctx') :
    (g.expandCognate (levels + 1) name).Yields ctx text ctx'.ascend := by
  have haccepts' : ctx.descend.accepts group = true := haccepts
  have hselect : (g.select name).Yields ctx.descend rule (ctx.merge group).descend :=
    yields_select hc hgroup haccepts' hrule
  have hframe : (((g.select name).andThen fun rule =>
      evaluateTokens (g.expandCognate levels) rule.tokens).inFrame).Yields ctx text
        ctx'.ascend := (hselect.andThen hbody).inFrame
  obtain ⟨answers, hframe⟩ := hframe
  exact ⟨answers, fun s hs hsupplies => hframe (s.requested name) hs hsupplies⟩

/-- Evaluates a phrase with so many levels of nesting left. -/
def evaluatePhrase (g : Grammar) (levels : Nat) : Phrase → Step String
  | .cognate name => g.expandCognate levels name
  | .token token => evaluateToken (g.expandCognate levels) token
  | .tokens tokens => evaluateTokens (g.expandCognate levels) tokens

end Grammar

/-- A derivation can be followed with as many levels left as it is high. -/
theorem Derivation.yields {g : Grammar} {phrase : Phrase}
    (d : Derivation g ctx phrase text ctx') {levels : Nat} (h : d.height ≤ levels) :
    (g.evaluatePhrase levels phrase).Yields ctx text ctx' := by
  induction d generalizing levels with
  | cognate known listed accepted member body ih =>
      cases levels with
      | zero => exact absurd h (Nat.not_succ_le_zero _)
      | succ levels =>
          have hbody := ih (Nat.le_of_succ_le_succ h)
          exact Grammar.yields_expandCognate known listed accepted member hbody
  | nil => exact Step.yields_of_eq fun _ _ => rfl
  | cons first others ihfirst ihothers =>
      have hfirst := ihfirst ((le_max_left _ _).trans h)
      have hothers := ihothers ((le_max_right _ _).trans h)
      exact hfirst.andThen (hothers.map _)
  | literal => exact Step.yields_of_eq fun _ _ => rfl
  | @bound ctx token name text refers bound =>
      cases token with
      | nonTerminal n | sticky n | binding n =>
          obtain rfl := Option.some.inj refers
          exact yields_boundOr_bound bound
      | _ => cases refers
  | nonTerminal unbound expansion ih => exact yields_boundOr_unbound unbound (ih h)
  | sticky unbound expansion ih =>
      exact yields_boundOr_unbound unbound (yields_bindTo .stuck (ih h))
  | range least most => exact yields_drawNumber least most
  | assigned bound =>
      apply Step.yields_of_eq
      intro s hs
      exact if_pos (hs ▸ bound)
  | assignment unbound expansion ih => exact yields_assignment unbound (ih h)
  | expression known body ih =>
      exact (ih h).andThen (yields_applyCommand known)

/-! ### Both directions -/

theorem Derivation.height_pos {g : Grammar} (d : Derivation g ctx (.cognate name) text ctx') :
    0 < d.height := by
  cases d with
  | cognate known listed accepted member body => exact Nat.succ_pos _

/-- There is a stream of draws on which the expansion of a cognate gives a text and changes the
context in some way exactly if the grammar derives that without draws and limits, with
cognates nested no deeper than the levels that are left in the context. -/
theorem Grammar.generateWith_eq_ok_iff_derivation {g : Grammar} (hg : g.Parsed)
    (ctx ctx' : Context) (name text : String) :
    (∃ stream t, g.generateWith name (.start ctx (.ofStream stream)) = (.ok text, t) ∧
        t.context = ctx') ↔
      ∃ d : Derivation g ctx (.cognate name) text ctx',
        (d.height : Int) ≤ g.maxDepth - ctx.depth := by
  constructor
  · rintro ⟨stream, t, ht, rfl⟩
    obtain ⟨d, hd⟩ : Derivable g (g.levels ctx) ctx (.cognate name) text t.context :=
      expandCognate_sound hg ht
    have hpos := d.height_pos
    rw [levels] at hd
    exact ⟨d, by omega⟩
  · rintro ⟨d, hd⟩
    have hlevels : d.height ≤ g.levels ctx := by
      rw [levels]
      omega
    obtain ⟨answers, hyields⟩ := d.yields hlevels
    obtain ⟨t, ht, htc, -⟩ := hyields (.start ctx (.ofStream fun i => answers.getD i 0)) rfl
      (Chance.supplies_ofStream answers)
    exact ⟨_, t, ht, htc⟩

/-- With one frame open under a limit of three, the tale of a hen has a derivation that needs
no more than the two levels left. -/
theorem derivation_farm_hen : farm.Parsed ∧
    ∃ d : Derivation farm ⟨∅, ∅, [[]]⟩ (.cognate "tale") "hen Hen 3"
      ⟨Table.insert ∅ "size" "small", ∅, [[]]⟩, (d.height : Int) ≤ 3 - 1 := by
  refine ⟨parsed_farm, (Grammar.generateWith_eq_ok_iff_derivation parsed_farm _ _ _ _).mp ?_⟩
  exact ⟨fun i => [0, 1, 2].getD i 0, _, rfl, rfl⟩

end TaggedGrammar
