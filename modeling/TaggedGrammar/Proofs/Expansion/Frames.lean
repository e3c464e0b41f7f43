import TaggedGrammar.Proofs.Expansion.Limit

/-!
# Frames that were open before

An expansion neither reads nor closes a frame that it did not open. Of the frames that were open
before it only their number counts, against the limit of nesting. So two expansions that begin with
the same tags, bindings and draws end alike if each of them has as many levels of nesting left as
the other, whatever names the frames record that are open in either of them.

## Main statements

* `underLimit_law`: two runs with the same tags, bindings and draws.
* `Grammar.underLimit_withLimit`: grammars with different limits have such runs.
* `Grammar.sameUnder_copy`: an expansion in a context and in the copy of it without frames.

## Implementation notes

States are compared without their frames. Closing a frame gives both of them the bindings from
before, which are the same, so that the names recorded in the frames do not matter.
-/

namespace TaggedGrammar

variable {α : Type} {limit : Int} {s s' : State}

/-! ### Runs under another limit -/

/-- The error as it is told under another limit of nesting. -/
def ExpansionError.withLimit (limit : Int) : ExpansionError → ExpansionError
  | recursionLimitExceeded name _ => recursionLimitExceeded name limit
  | e => e

/-- The two states have the same tags, bindings and draws. -/
structure State.SameData (s s' : State) : Prop where
  tags : s'.context.tags = s.context.tags
  bindings : s'.context.bindings = s.context.bindings
  chance : s'.chance = s.chance

/-- The two runs end with the same value or the same error, but for the limit that it tells, and
with the same tags, bindings and draws. -/
structure SameUnder (limit : Int) (r r' : Except ExpansionError α × State) : Prop where
  result : r'.1 = r.1.mapError (.withLimit limit)
  data : r.2.SameData r'.2

/-! ### The law -/

theorem ExpansionError.withLimit_eq_self {e : ExpansionError} (limit : Int)
    (h : e.BelowLimit) : e.withLimit limit = e := by
  cases e with
  | recursionLimitExceeded name told => exact h.elim
  | _ => rfl

/-- Two runs have the same data and fail with the same errors, but for the limit that these tell. -/
def underLimit (limit : Int) : Comparison where
  states := State.SameData
  errors e e' := e' = e.withLimit limit
  waives _ := False

theorem underLimit_law (limit : Int) : (underLimit limit).Law Set.univ where
  binding?_eq h name _ := congrArg (Table.get? · name) h.bindings
  chance_eq h := h.chance
  errors_self _ h := (ExpansionError.withLimit_eq_self limit h).symm
  draw lower upper h := ⟨h.tags, h.bindings, congrArg (Chance.draw · lower upper) h.chance⟩
  bind value _ h _ := ⟨h.tags, congrArg (Table.insert · _ value) h.bindings, h.chance⟩
  request _ h := ⟨h.tags, h.bindings, h.chance⟩
  opened h := ⟨h.tags, h.bindings, h.chance⟩
  closed {s s' t t'} h ht hclosed hclosed' := by
    refine ⟨?_, ?_, ht.chance⟩
    · change t'.context.ascend.tags = t.context.ascend.tags
      rw [Context.tags_ascend, Context.tags_ascend, ht.tags]
    · rw [hclosed.bindings, hclosed'.bindings, h.bindings]

theorem sameUnder_of_ends {r r' : Except ExpansionError α × State}
    (h : (underLimit limit).Ends Eq r r') : SameUnder limit r r' := by
  cases h with
  | ok ha ht =>
      obtain rfl := ha
      exact ⟨rfl, ht⟩
  | error he ht =>
      obtain rfl := he
      exact ⟨rfl, ht⟩
  | waived he => exact he.elim

/-! ### Cognates and entry points -/

namespace Grammar

/-- A selection only looks at the tags and the draws, and the limit only shows in the error. -/
theorem underLimit_withLimit (g : Grammar) (limit limit' : Int) :
    (underLimit limit').Grammars (g.withLimit limit) (g.withLimit limit') 0 where
  select name := by
    intro s s' hs
    have hsuitable (c : Cognate) : suitable s'.context c = suitable s.context c := by
      apply List.filter_congr
      intro group _
      rw [Context.accepts, hs.tags, Context.accepts]
    change (underLimit limit').Ends _ ((g.withLimit limit).select name s)
      ((g.withLimit limit).select name s')
    refine (underLimit_law limit').select hs (fun c _ => hsuitable c) ?_ ?_
    · exact congrArg (ExpansionError.noSuitableGroups name) hs.tags
    · intro _ group rule index total _ _ _
      exact ⟨(underLimit_law limit').tokens_univ rule.tokens,
        congrArg (Table.insertMany · _) hs.tags, hs.bindings,
        congrArg (Chance.draw · 0 _) hs.chance⟩
  last _ := (underLimit_law limit').last rfl

/-- A cognate is expanded alike with as many levels of nesting left. -/
theorem sameUnder_expandCognate (g : Grammar) (limit limit' : Int) (levels : Nat) (name : String)
    (hs : s.SameData s') :
    SameUnder limit' ((g.withLimit limit).expandCognate levels name s)
      ((g.withLimit limit').expandCognate levels name s') :=
  sameUnder_of_ends ((g.underLimit_withLimit limit limit').expandCognate (underLimit_law limit')
    levels name s s' hs)

/-- However many frames are open in a context and whatever names they record, an expansion ends in
it as it does in the copy without frames under a limit that is lower by their number: with the same
text or the same error, but for the limit that it tells, with the same draws, and with the same
tags and bindings. -/
theorem sameUnder_copy (g : Grammar) (limit : Int) (s : State) :
    let copied := s.withContext s.context.copy
    let lowered := g.withLimit (limit - s.context.depth)
    (∀ name, SameUnder limit (lowered.generateWith name copied)
        ((g.withLimit limit).generateWith name s)) ∧
      ∀ literal, SameUnder limit (lowered.expandWith literal copied)
        ((g.withLimit limit).expandWith literal s) := by
  intro copied lowered
  have hdata : copied.SameData s := ⟨rfl, rfl, rfl⟩
  have hlevels : (g.withLimit limit).levels s.context = lowered.levels copied.context := by
    have hdepth : limit - s.context.depth = limit - s.context.depth - (0 : Nat) := by omega
    exact congrArg Int.toNat hdepth
  have hopened : (g.withLimit limit).levels s.opened.context =
      lowered.levels copied.opened.context := by
    have hdepth : limit - (s.context.depth + 1 : Nat) = limit - s.context.depth - (1 : Nat) := by
      omega
    exact congrArg Int.toNat hdepth
  have hgrammars := g.underLimit_withLimit (limit - s.context.depth) limit
  have hlaw := underLimit_law limit
  constructor
  · exact fun name => sameUnder_of_ends (hgrammars.generateWith hlaw hdata hlevels name)
  · exact fun literal => sameUnder_of_ends (hgrammars.expandWith hlaw hdata hopened
      fun rule _ => hlaw.tokens_univ rule.tokens)

/-- With two frames open a limit of three leaves one level of nesting, and a limit of two none. -/
example :
    let s : State := .start ⟨∅, ∅, [["guest"], []]⟩ (.ofArray #[1])
    ((farm.withLimit 3).generateWith "beast" s).1 = .ok "hen" ∧
      ((farm.withLimit 2).generateWith "beast" s).1 =
        .error (.recursionLimitExceeded "beast" 2) := by
  decide

end Grammar

end TaggedGrammar
