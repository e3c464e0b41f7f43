import TaggedGrammar.Proofs.Expansion.Progress

/-!
# Cognates that are not reached

An expansion looks up the cognate that it begins with and those that tokens request on the way,
and no others. Where a set of names is closed under requests, two grammars with the same limit
and the same cognates under these names expand them alike in every respect, whatever else the
grammars hold, and in whatever order.

## Main statements

* `evaluateTokens_congr`: tokens only look at the cognates that they request.
* `Grammar.AgreeOn.expandCognate_eq`: one more level of nesting.
* `Grammar.sameRuns_of_isClosed`: cognates outside a closed set of names do not matter.
-/

namespace TaggedGrammar

/-! ### Tokens -/

theorem evaluateTokens_congr {expand expand' : String → Step String} {tokens : List Token}
    (h : ∀ token ∈ tokens, ∀ name ∈ token.requests, expand name = expand' name) :
    evaluateTokens expand tokens = evaluateTokens expand' tokens := by
  induction tokens with
  | nil => rfl
  | cons token rest ih =>
      obtain ⟨htoken, hrest⟩ := List.forall_mem_cons.mp h
      have hfirst : evaluateToken expand token = evaluateToken expand' token :=
        funext fun s => evaluateToken_congr fun name hn => congrFun (htoken name hn) s
      rw [evaluateTokens, evaluateTokens, hfirst, ih hrest]

/-! ### Closed sets of names -/

namespace Grammar

/-- What the cognates of the set request is in the set. -/
def IsClosed (g : Grammar) (R : Set String) : Prop :=
  ∀ name ∈ R, ∀ other, g.Requests name other → other ∈ R

/-- The second grammar has the same limit as the first, and the same cognates under the names of
the set, where there are any. -/
structure AgreeOn (R : Set String) (g g' : Grammar) : Prop where
  maxDepth : g'.maxDepth = g.maxDepth
  get? : ∀ name ∈ R, g'.get? name = g.get? name

/-- A selection looks at no other cognate. -/
theorem select_congr {g g' : Grammar} {name : String} (h : g'.get? name = g.get? name) :
    g'.select name = g.select name := by
  funext s
  unfold select
  rw [h]

variable {R : Set String} {g g' : Grammar}

/-- With one more level of nesting the names of a closed set still expand alike: the rules that
are selected are those of the first grammar, and their requests stay in the set. -/
theorem AgreeOn.expandCognate_eq (h : AgreeOn R g g') (hclosed : g.IsClosed R) (levels : Nat)
    {name : String} (hname : name ∈ R) :
    g'.expandCognate levels name = g.expandCognate levels name := by
  induction levels generalizing name with
  | zero =>
      funext s
      rw [expandCognate, expandCognate, h.maxDepth]
  | succ levels ih =>
      funext s
      rw [expandCognate_succ, expandCognate_succ, select_congr (h.get? name hname)]
      apply Step.inFrame_congr
      unfold Step.andThen
      cases hselect : g.select name (s.requested name).opened with
      | mk result t =>
          cases result with
          | error e => rfl
          | ok rule =>
              refine congrFun (evaluateTokens_congr fun token ht other ho => ih ?_) t
              exact hclosed name hname other ⟨token, mem_tokensOf_of_select hselect ht, ho⟩

theorem AgreeOn.levels_eq (h : AgreeOn R g g') (ctx : Context) : g'.levels ctx = g.levels ctx := by
  rw [levels, levels, h.maxDepth]

theorem AgreeOn.generateWith_eq (h : AgreeOn R g g') (hclosed : g.IsClosed R) {name : String}
    (hname : name ∈ R) : g'.generateWith name = g.generateWith name := by
  funext s
  rw [generateWith, generateWith, h.levels_eq, h.expandCognate_eq hclosed _ hname]

theorem AgreeOn.evaluate_eq (h : AgreeOn R g g') (hclosed : g.IsClosed R) {tokens : List Token}
    (hrequests : ∀ token ∈ tokens, ∀ name ∈ token.requests, name ∈ R) :
    g'.evaluate tokens = g.evaluate tokens := by
  funext s
  rw [evaluate, evaluate, h.levels_eq]
  refine congrFun (evaluateTokens_congr fun token ht name hn => ?_) s
  exact h.expandCognate_eq hclosed _ (hrequests token ht name hn)

/-! ### Grammars that differ elsewhere -/

/-- A cognate that is inserted under a name outside the set does not matter there. -/
theorem agreeOn_insert {c : Cognate} (h : c.name ∉ R) : AgreeOn R g (g.insert c) := by
  refine ⟨rfl, fun name hname => ?_⟩
  have hne : name ≠ c.name := fun he => h (he ▸ hname)
  exact Table.get?_insert_of_ne hne

/-- The order of the cognates does not matter. -/
theorem agreeOn_of_perm (hdepth : g'.maxDepth = g.maxDepth)
    (h : g'.cognates.entries.Perm g.cognates.entries) : AgreeOn R g g' := by
  refine ⟨hdepth, fun name _ => Option.ext fun c => ?_⟩
  change g'.cognates.get? name = some c ↔ g.cognates.get? name = some c
  rw [Table.get?_eq_some_iff, Table.get?_eq_some_iff]
  exact h.mem_iff

/-- The cognates that the tokens of a template request, if it can be read, are in the set. -/
def RequestsWithin (R : Set String) (literal : String) : Prop :=
  ∀ rule, Rule.ofLiteral literal = .ok rule →
    ∀ token ∈ rule.tokens, ∀ name ∈ token.requests, name ∈ R

/-- The names of the set, and the templates that request no others, expand alike: they give the
same text or the same error from every state, and leave the same state behind. -/
structure SameRuns (R : Set String) (g g' : Grammar) : Prop where
  generateWith : ∀ name ∈ R, g'.generateWith name = g.generateWith name
  expandWith : ∀ literal, RequestsWithin R literal → g'.expandWith literal = g.expandWith literal

theorem AgreeOn.sameRuns (h : AgreeOn R g g') (hclosed : g.IsClosed R) : SameRuns R g g' := by
  constructor
  · exact fun name hname => h.generateWith_eq hclosed hname
  · intro literal hrequests
    unfold Grammar.expandWith
    cases hrule : Rule.ofLiteral literal with
    | error e => rfl
    | ok rule => exact congrArg Step.inFrame (h.evaluate_eq hclosed (hrequests rule hrule))

/-- If a set of names is closed under requests, all that matters to the expansion of these names
is the limit and the cognates under them. So nothing changes where a cognate is inserted under
another name, new or replaced, or where cognates are put in another order. -/
theorem sameRuns_of_isClosed (g : Grammar) (R : Set String) (hclosed : g.IsClosed R) :
    (∀ g', AgreeOn R g g' → SameRuns R g g') ∧
      (∀ c : Cognate, c.name ∉ R → SameRuns R g (g.insert c)) ∧
      ∀ g', g'.maxDepth = g.maxDepth → g'.cognates.entries.Perm g.cognates.entries →
        SameRuns R g g' :=
  ⟨fun _ h => h.sameRuns hclosed, fun _ h => (agreeOn_insert h).sameRuns hclosed,
    fun _ hdepth h => (agreeOn_of_perm hdepth h).sameRuns hclosed⟩

end Grammar

/-- The farm in another order, with a cognate that no tale reaches. -/
def meadow : Grammar :=
  .ofCognates [⟨"beast", beasts⟩, ⟨"grass", []⟩, ⟨"tale", [⟨[tale], ∅, ""⟩]⟩] 3

theorem sameRuns_farm :
    let R : Set String := {"tale", "beast"}
    farm.IsClosed R ∧ Grammar.AgreeOn R farm meadow ∧ Grammar.SameRuns R farm meadow ∧
      Grammar.SameRuns R farm (farm.insert ⟨"grass", [⟨[tale], ∅, ""⟩]⟩) ∧
      Grammar.SameRuns R farm (.ofCognates farm.toList.reverse 3) ∧
      meadow.expandWith "<$b:beast>" = farm.expandWith "<$b:beast>" := by
  intro R
  have hclosed : farm.IsClosed R := by
    have hall : ∀ name ∈ ["tale", "beast"], ∀ token ∈ farm.tokensOf name,
        ∀ other ∈ token.requests, other = "beast" := by decide
    rintro name hname other ⟨token, ht, ho⟩
    exact Or.inr (hall name (by simpa [R] using hname) token ht other ho)
  have hagree : Grammar.AgreeOn R farm meadow := by
    refine ⟨rfl, ?_⟩
    rintro name (rfl | rfl)
    · rfl
    · rfl
  obtain ⟨hmain, hinsert, hperm⟩ := farm.sameRuns_of_isClosed R hclosed
  refine ⟨hclosed, hagree, hmain meadow hagree, hinsert _ (by simp [R]),
    hperm _ rfl (List.Perm.swap _ _ _), (hmain meadow hagree).expandWith _ ?_⟩
  have hrule : Rule.ofLiteral "<$b:beast>" = .ok ⟨"<$b:beast>", [.assignment "b" "beast"]⟩ := by
    decide +kernel
  intro rule hr token ht name hn
  obtain rfl := Except.ok.inj (hrule.symm.trans hr)
  obtain rfl := List.mem_singleton.mp ht
  obtain rfl := List.mem_singleton.mp hn
  exact Or.inr rfl

end TaggedGrammar
