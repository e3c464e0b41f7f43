import TaggedGrammar.Proofs.Expansion.Scope
import TaggedGrammar.Proofs.Expansion.Step

/-!
# The limit of nesting

Expansions count the levels that are left. Evaluating a token leaves as many frames open as it
found, so the number that is counted down is always the limit less the open frames. An expansion
therefore does what it would do if it compared the open frames with the limit each time.

## Main statements

* `evaluateToken_congr`: a token expands only the cognates that it requests.
* `Grammar.evaluateTokens_expandCognate`: tokens are evaluated with the levels that the context
  leaves.
* `Grammar.generateWith_eq`: the expansion of a cognate by a comparison with the limit.
-/

namespace TaggedGrammar

theorem Grown.depth {s t : State} (h : Grown s t) : t.context.depth = s.context.depth := by
  obtain ⟨added, -, hf⟩ := h.added
  rw [Context.depth, hf, Context.depth]
  cases s.context.frames with
  | nil => rfl
  | cons frame rest => rfl

theorem State.depth_bound (s : State) (name value : String) (event : Event) :
    (s.bound name value event).context.depth = s.context.depth :=
  s.context.depth_bind name value

/-- The cognates that a token may request. -/
def Token.requests : Token → List String
  | nonTerminal name => [name]
  | sticky name => [name]
  | assignment _ rule => [rule]
  | expression _ inner => inner.requests
  | literal _ | binding _ | range _ _ | stray _ => []

/-- A token expands only the cognates that it requests, and only in the state that it is evaluated
in. -/
theorem evaluateToken_congr {expand expand' : String → Step String} {s : State} {token : Token}
    (h : ∀ name ∈ token.requests, expand name s = expand' name s) :
    evaluateToken expand token s = evaluateToken expand' token s := by
  induction token with
  | literal _ | binding _ | range _ _ | stray _ => rfl
  | nonTerminal name =>
      simp only [evaluateToken, boundOr, h name (List.mem_singleton_self name)]
  | sticky name =>
      simp only [evaluateToken, boundOr, bindTo, Step.andThen,
        h name (List.mem_singleton_self name)]
  | assignment name rule =>
      simp only [evaluateToken, bindTo, Step.andThen, h rule (List.mem_singleton_self rule)]
  | expression command inner ih =>
      simp only [evaluateToken, Step.andThen, ih h]

namespace Grammar

theorem generateWith_of_levels {g : Grammar} {levels : Nat} {s : State}
    (h : g.levels s.context = levels) (name : String) :
    g.expandCognate levels name s = g.generateWith name s := by
  rw [generateWith, h]

/-- Tokens are evaluated as if each expansion of a cognate looked at the open frames anew. -/
theorem evaluateTokens_expandCognate {g : Grammar} {levels : Nat} {s : State}
    (h : g.levels s.context = levels) (tokens : List Token) :
    evaluateTokens (g.expandCognate levels) tokens s =
      evaluateTokens g.generateWith tokens s := by
  induction tokens generalizing s with
  | nil => rfl
  | cons token rest ih =>
      have htoken : evaluateToken (g.expandCognate levels) token s =
          evaluateToken g.generateWith token s :=
        evaluateToken_congr fun name _ => generateWith_of_levels h name
      have hgrown := scopeLaw.evaluateToken (fun name => scopeLaw.generateWith g name) token s
      simp only [evaluateTokens, Step.andThen]
      rw [htoken]
      cases hr : evaluateToken g.generateWith token s with
      | mk result t =>
          cases result with
          | error e => rfl
          | ok text =>
              rw [hr] at hgrown
              have ht : g.levels t.context = levels := by
                rw [Grammar.levels, hgrown.depth]
                exact h
              simp only [Step.map, ih ht]

/-- A cognate is expanded in a frame of its own if there are fewer frames than the limit, and
it fails otherwise. -/
theorem generateWith_eq (g : Grammar) (name : String) (s : State) :
    g.generateWith name s =
      if g.maxDepth ≤ s.context.depth then
        (.error (.recursionLimitExceeded name g.maxDepth), s.requested name)
      else Step.inFrame ((g.select name).andThen fun rule =>
        evaluateTokens g.generateWith rule.tokens) (s.requested name) := by
  split
  · rename_i hdepth
    have hzero : g.levels s.context = 0 := by
      rw [levels]
      omega
    rw [← generateWith_of_levels hzero name]
    rfl
  · rename_i hdepth
    have hlevels : g.levels s.context = g.levels s.context.descend + 1 := by
      rw [levels, levels, Context.depth_descend]
      omega
    rw [← generateWith_of_levels hlevels name, expandCognate_succ]
    apply Step.inFrame_congr
    have hgrown := scopeLaw.select g name (s.requested name).opened
    unfold Step.andThen
    cases hr : g.select name (s.requested name).opened with
    | mk result t =>
        cases result with
        | error e => rfl
        | ok rule =>
            rw [hr] at hgrown
            refine evaluateTokens_expandCognate ?_ rule.tokens
            rw [levels, hgrown.depth]
            rfl

end Grammar

end TaggedGrammar
