import TaggedGrammar.Proofs.Expansion.Comparison
import TaggedGrammar.Proofs.Grammar.Parsed

/-!
# Raising the limit of nesting

The limit of nesting only cuts off. Where an expansion ends without coming to the limit, with a
text or with some other error, a higher limit gives the same end, on the same draws and with
the same context left behind. An expansion fails as soon as a part of it does, and no step goes
on behind a failure or looks at the limit, so a run that was not cut off has no part that was.

## Main statements

* `untilCutOff_law`: two runs that are the same until the first one is cut off.
* `Grammar.untilCutOff_withLimit`: grammars with different limits have such runs.
* `Grammar.extendedBy_withLimit`: a higher limit keeps every answer.
-/

namespace TaggedGrammar

variable {α : Type} {limit : Int}

/-- The run ended at the limit. -/
def CutOff (limit : Int) (run : Except ExpansionError α × State) : Prop :=
  ∃ name, run.1 = .error (.recursionLimitExceeded name limit)

/-- The second step ends as the first one does, in the same state, unless the first one is cut
off. -/
def Step.ExtendedBy (limit : Int) (step step' : Step α) : Prop :=
  ∀ s, ¬CutOff limit (step s) → step' s = step s

/-- Two runs are the same until the first one comes to the limit. -/
def untilCutOff (limit : Int) : Comparison where
  states s s' := s' = s
  errors e e' := e' = e
  waives e := ∃ name, e = .recursionLimitExceeded name limit

theorem untilCutOff_law (limit : Int) : (untilCutOff limit).Law Set.univ where
  binding?_eq := by
    rintro s _ rfl _ _
    rfl
  chance_eq := congrArg State.chance
  errors_self _ _ := rfl
  draw lower upper := congrArg (State.draw · lower upper)
  bind value event h _ := congrArg (State.bound · _ value event) h
  request name := congrArg (State.requested · name)
  opened := congrArg State.opened
  closed _ ht _ _ := congrArg State.closed ht

/-- A run that was not cut off is the other one. -/
theorem eq_of_not_cutOff {r r' : Except ExpansionError α × State}
    (h : (untilCutOff limit).Ends Eq r r') (hcut : ¬CutOff limit r) : r' = r := by
  cases h with
  | ok ha ht =>
      obtain rfl := ha
      obtain rfl := ht
      rfl
  | error he ht =>
      obtain rfl := he
      obtain rfl := ht
      rfl
  | waived he =>
      obtain ⟨name, rfl⟩ := he
      exact absurd ⟨name, rfl⟩ hcut

namespace Grammar

/-- The grammar with another limit of nesting. -/
def withLimit (g : Grammar) (limit : Int) : Grammar := { g with maxDepth := limit }

/-- Selecting a rule does not look at the limit, so it is the same step in both grammars. -/
theorem untilCutOff_withLimit (g : Grammar) (limit limit' : Int) (more : Nat) :
    (untilCutOff limit).Grammars (g.withLimit limit) (g.withLimit limit') more where
  select name := by
    rintro _ s rfl
    change (untilCutOff limit).Ends _ ((g.withLimit limit).select name s)
      ((g.withLimit limit).select name s)
    exact (untilCutOff_law limit).select rfl (fun _ _ => rfl) rfl
      fun _ _ rule _ _ _ _ _ => ⟨(untilCutOff_law limit).tokens_univ rule.tokens, rfl⟩
  last name _ _ _ := .waived ⟨name, rfl⟩

theorem exists_levels_withLimit (g : Grammar) {limit limit' : Int} (h : limit ≤ limit')
    (ctx : Context) :
    ∃ more, (g.withLimit limit').levels ctx = (g.withLimit limit).levels ctx + more := by
  have hle : limit - ctx.depth ≤ limit' - ctx.depth := by omega
  obtain ⟨more, hmore⟩ := Nat.exists_eq_add_of_le (Int.toNat_le_toNat hle)
  exact ⟨more, hmore⟩

/-- Under a higher limit cognates and templates expand as before, to the same text or the same
error, with the same draws and the same context afterwards, unless they were cut off. -/
theorem extendedBy_withLimit (g : Grammar) {limit limit' : Int} (h : limit ≤ limit') :
    (∀ name, ((g.withLimit limit).generateWith name).ExtendedBy limit
      ((g.withLimit limit').generateWith name)) ∧
    ∀ literal, ((g.withLimit limit).expandWith literal).ExtendedBy limit
      ((g.withLimit limit').expandWith literal) := by
  constructor
  · intro name s
    obtain ⟨more, hlevels⟩ := g.exists_levels_withLimit h s.context
    have hgrammars := g.untilCutOff_withLimit limit limit' more
    exact eq_of_not_cutOff (hgrammars.generateWith (untilCutOff_law limit) rfl hlevels name)
  · intro literal s
    obtain ⟨more, hlevels⟩ := g.exists_levels_withLimit h s.opened.context
    have hgrammars := g.untilCutOff_withLimit limit limit' more
    exact eq_of_not_cutOff (hgrammars.expandWith (untilCutOff_law limit) rfl hlevels
      fun rule _ => (untilCutOff_law limit).tokens_univ rule.tokens)

end Grammar

/-- The tale comes to its end with two levels of nesting, and with one it is cut off at the
beast. -/
theorem extendedBy_farm_tale :
    let s : State := .start .empty (.ofArray #[0, 1, 2])
    CutOff 1 ((farm.withLimit 1).generateWith "tale" s) ∧
      ¬CutOff 2 ((farm.withLimit 2).generateWith "tale" s) ∧
      (farm.withLimit 100).generateWith "tale" s = (farm.withLimit 2).generateWith "tale" s := by
  intro s
  have hends : ((farm.withLimit 2).generateWith "tale" s).1 = .ok "hen Hen 3" := rfl
  have hcut : ¬CutOff 2 ((farm.withLimit 2).generateWith "tale" s) := by
    rintro ⟨name, hname⟩
    rw [hends] at hname
    cases hname
  refine ⟨⟨"beast", rfl⟩, hcut, ?_⟩
  exact (farm.extendedBy_withLimit (by decide : (2 : Int) ≤ 100)).1 "tale" s hcut

end TaggedGrammar
