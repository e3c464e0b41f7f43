import Mathlib.Data.List.Forall2
import Mathlib.Data.Set.Basic
import TaggedGrammar.Proofs.Expansion.Scope
import TaggedGrammar.Proofs.Expansion.Step

/-!
# Laws of two expansions

Two expansions are compared by relations that hold between them at every point: one between the
states that they have come to, and one between the errors with which they fail. A `Law` asks of the
relations what the single steps need: looking a name up, drawing, binding a name, opening and
closing a frame. Tokens then evaluate alike, and so do cognates where selections do and where both
expansions come to the limit.

## Main statements

* `Comparison.Ends.andThen`, `Comparison.Law.inFrame`: sequences of steps and steps in a frame.
* `Comparison.Law.evaluateToken`, `Comparison.Steps.evaluateTokens`: tokens.
* `Comparison.Law.select`: selections from the same groups.
* `Comparison.Grammars.expandCognate`: one more level of nesting.
* `Comparison.Grammars.generateWith`, `Comparison.Grammars.expandWith`: the entry points.

## Implementation notes

The two expansions may leave off at different points: of the second one nothing is asked behind an
error of the first that the comparison waives. They may also differ in how many levels of nesting
are left, in the tokens of the rules that are selected, and in the names that are open in frames.
-/

namespace TaggedGrammar

/-- The names that a token may look up among the bindings. -/
def Token.lookups : Token → List String
  | nonTerminal name | sticky name | binding name | assignment name _ => [name]
  | expression _ inner => inner.lookups
  | literal _ | range _ _ | stray _ => []

/-- The error is another one than that the limit of nesting was exceeded. -/
def ExpansionError.BelowLimit : ExpansionError → Prop
  | recursionLimitExceeded _ _ => False
  | _ => True

/-- What two runs have to do with each other. -/
structure Comparison where
  /-- Relates the states that the runs are in at the same point. -/
  states : State → State → Prop
  /-- Relates the errors with which both runs fail. -/
  errors : ExpansionError → ExpansionError → Prop
  /-- Holds of the errors of the first run that leave the second one free. -/
  waives : ExpansionError → Prop

namespace Comparison

variable {c : Comparison} {α α' β β' : Type} {values : α → α' → Prop} {values' : β → β' → Prop}
variable {s s' : State}

/-- The two runs end alike, with related values or with related errors. -/
inductive Ends (c : Comparison) (values : α → α' → Prop) :
    Except ExpansionError α × State → Except ExpansionError α' × State → Prop where
  | ok {a : α} {a' : α'} {t t' : State} (h : values a a') (ht : c.states t t') :
      Ends c values (.ok a, t) (.ok a', t')
  | error {e e' : ExpansionError} {t t' : State} (h : c.errors e e') (ht : c.states t t') :
      Ends c values (.error e, t) (.error e', t')
  | waived {e : ExpansionError} {t : State} {r' : Except ExpansionError α' × State}
      (h : c.waives e) : Ends c values (.error e, t) r'

/-- From related states the two steps end alike. -/
def Steps (c : Comparison) (values : α → α' → Prop) (step : Step α) (step' : Step α') : Prop :=
  ∀ s s', c.states s s' → c.Ends values (step s) (step' s')

/-- The two ways to expand cognates end alike and leave bindings and frames as they found them. -/
structure Expands (c : Comparison) (expand expand' : String → Step String) : Prop where
  steps : ∀ name, c.Steps Eq (expand name) (expand' name)
  scope : ∀ name, (expand name).Within Unwound
  scope' : ∀ name, (expand' name).Within Unwound

/-- The tokens evaluate alike wherever cognates expand alike. -/
def Tokens (c : Comparison) (tokens tokens' : List Token) : Prop :=
  ∀ expand expand', c.Expands expand expand' →
    c.Steps Eq (evaluateTokens expand tokens) (evaluateTokens expand' tokens')

/-- What a comparison needs so that tokens evaluate alike that only look up names of the set. -/
structure Law (c : Comparison) (names : Set String) : Prop where
  binding?_eq : ∀ {s s'}, c.states s s' → ∀ name ∈ names,
    s'.context.binding? name = s.context.binding? name
  chance_eq : ∀ {s s'}, c.states s s' → s'.chance = s.chance
  errors_self : ∀ e, e.BelowLimit → c.errors e e
  draw : ∀ {s s'} lower upper, c.states s s' →
    c.states (s.draw lower upper) (s'.draw lower upper)
  bind : ∀ {s s' name} value event, c.states s s' → s.context.isBound name = false →
    c.states (s.bound name value event) (s'.bound name value event)
  request : ∀ {s s'} name, c.states s s' → c.states (s.requested name) (s'.requested name)
  opened : ∀ {s s'}, c.states s s' → c.states s.opened s'.opened
  closed : ∀ {s s' t t'}, c.states s s' → c.states t t' → Unwound s t.closed →
    Unwound s' t'.closed → c.states t.closed t'.closed

/-! ### Sequences of steps -/

theorem steps_pure {a : α} {a' : α'} (h : values a a') :
    c.Steps values (Step.pure a) (Step.pure a') := fun _ _ hs => .ok h hs

theorem steps_fail {e e' : ExpansionError} (h : c.errors e e') :
    c.Steps values (Step.fail e) (Step.fail e') := fun _ _ hs => .error h hs

/-- A sequence whose first step answers goes on from related states. -/
theorem Ends.andThen {step : Step α} {step' : Step α'} {next : α → Step β}
    {next' : α' → Step β'} (h : c.Ends values (step s) (step' s'))
    (hn : ∀ a a' t t', step s = (.ok a, t) → values a a' → c.states t t' →
      c.Ends values' (next a t) (next' a' t')) :
    c.Ends values' (step.andThen next s) (step'.andThen next' s') := by
  unfold Step.andThen
  cases hr : step s with
  | mk result t =>
      cases hr' : step' s' with
      | mk result' t' =>
          rw [hr, hr'] at h
          cases h with
          | ok hvalues ht => exact hn _ _ t t' hr hvalues ht
          | error he ht => exact .error he ht
          | waived he => exact .waived he

theorem Steps.andThen {step : Step α} {step' : Step α'} {next : α → Step β}
    {next' : α' → Step β'} (h : c.Steps values step step')
    (hn : ∀ a a', values a a' → c.Steps values' (next a) (next' a')) :
    c.Steps values' (step.andThen next) (step'.andThen next') := fun s s' hs =>
  (h s s' hs).andThen fun a a' t t' _ hvalues ht => hn a a' hvalues t t' ht

theorem Steps.map {step step' : Step α} (h : c.Steps Eq step step') (f : α → β) :
    c.Steps Eq (step.map f) (step'.map f) := by
  rw [Step.map_eq_andThen, Step.map_eq_andThen]
  apply h.andThen
  rintro a _ rfl
  exact steps_pure rfl

/-- Tokens in a row evaluate alike if each of them does. -/
theorem Steps.evaluateTokens {expand expand' : String → Step String}
    {tokens tokens' : List Token}
    (h : List.Forall₂ (fun token token' =>
      c.Steps Eq (evaluateToken expand token) (evaluateToken expand' token')) tokens tokens') :
    c.Steps Eq (evaluateTokens expand tokens) (evaluateTokens expand' tokens') := by
  induction h with
  | nil => exact steps_pure rfl
  | cons htoken _ ih =>
      apply htoken.andThen
      rintro text _ rfl
      exact ih.map _

namespace Law

variable {names : Set String} (law : c.Law names)
include law

theorem isBound_eq (hs : c.states s s') {name : String} (hname : name ∈ names) :
    s'.context.isBound name = s.context.isBound name := by
  rw [Bool.eq_iff_iff, ← not_iff_not, Bool.not_eq_true, Bool.not_eq_true,
    Context.isBound_eq_false_iff, Context.isBound_eq_false_iff, law.binding?_eq hs name hname]

/-- A frame is closed in both runs, also where they fail in it. -/
theorem inFrame {step : Step α} {step' : Step α'} (hs : c.states s s')
    (h : c.Ends values (step s.opened) (step' s'.opened)) (hscope : step.Within Grown)
    (hscope' : step'.Within Grown) : c.Ends values (step.inFrame s) (step'.inFrame s') := by
  have hclosed := (hscope s.opened).closed
  have hclosed' := (hscope' s'.opened).closed
  change c.Ends values ((step s.opened).1, (step s.opened).2.closed)
    ((step' s'.opened).1, (step' s'.opened).2.closed)
  generalize step s.opened = r at h hclosed
  generalize step' s'.opened = r' at h hclosed'
  cases h with
  | ok hvalues ht => exact .ok hvalues (law.closed hs ht hclosed hclosed')
  | error he ht => exact .error he (law.closed hs ht hclosed hclosed')
  | waived he => exact .waived he

/-! ### Tokens -/

theorem boundOr {name : String} (hname : name ∈ names) {step step' : Step String}
    (hs : c.states s s')
    (h : s.context.isBound name = false → c.Ends Eq (step s) (step' s')) :
    c.Ends Eq (boundOr name step s) (boundOr name step' s') := by
  unfold TaggedGrammar.boundOr
  rw [law.binding?_eq hs name hname]
  cases hb : s.context.binding? name with
  | some value => exact .ok rfl hs
  | none => exact h (Context.isBound_eq_false_iff.mpr hb)

theorem readBinding {name : String} (hname : name ∈ names) :
    c.Steps Eq (readBinding name) (readBinding name) := by
  intro s s' hs
  apply law.boundOr hname hs
  intro _
  exact .error (law.errors_self _ trivial) hs

theorem drawNumber (lower upper : Int) :
    c.Steps Eq (drawNumber lower upper) (drawNumber lower upper) := by
  intro s s' hs
  unfold TaggedGrammar.drawNumber
  rw [law.chance_eq hs]
  exact .ok rfl (law.draw lower upper hs)

theorem applyCommand (command text : String) :
    c.Steps Eq (applyCommand command text) (applyCommand command text) := by
  unfold TaggedGrammar.applyCommand
  cases Command.ofName? command with
  | some known => exact steps_pure rfl
  | none => exact steps_fail (law.errors_self _ trivial)

section Expansion

variable {expand expand' : String → Step String} (hexp : c.Expands expand expand')
include hexp

/-- A name that was unbound before a cognate was expanded is unbound behind that, too. -/
theorem bindTo {name : String} (event : String → String → Event) (rule : String)
    (hs : c.states s s') (hn : s.context.isBound name = false) :
    c.Ends Eq (bindTo name event (expand rule) s) (bindTo name event (expand' rule) s') := by
  apply (hexp.steps rule s s' hs).andThen
  rintro value _ t t' hr rfl ht
  have hunwound : Unwound s t := (hexp.scope rule).of_eq hr
  have hunbound : t.context.isBound name = false := by
    rw [Context.isBound, hunwound.bindings]
    exact hn
  exact .ok rfl (law.bind value (event name value) ht hunbound)

theorem evaluateToken {token : Token} (hlookups : ∀ name ∈ token.lookups, name ∈ names) :
    c.Steps Eq (evaluateToken expand token) (evaluateToken expand' token) := by
  induction token with
  | literal text => exact steps_pure rfl
  | nonTerminal name =>
      intro s s' hs
      have hname : name ∈ names := hlookups name (List.mem_singleton_self name)
      exact law.boundOr hname hs fun _ => hexp.steps name s s' hs
  | sticky name =>
      intro s s' hs
      have hname : name ∈ names := hlookups name (List.mem_singleton_self name)
      exact law.boundOr hname hs (law.bindTo hexp .stuck name hs)
  | binding name => exact law.readBinding (hlookups name (List.mem_singleton_self name))
  | range lower upper => exact law.drawNumber lower upper
  | assignment name rule =>
      intro s s' hs
      have hname : name ∈ names := hlookups name (List.mem_singleton_self name)
      unfold TaggedGrammar.evaluateToken
      rw [law.isBound_eq hs hname]
      cases hn : s.context.isBound name with
      | true => exact .ok rfl hs
      | false =>
          apply (law.bindTo hexp .assigned rule hs hn).andThen
          intro _ _ t t' _ _ ht
          exact law.readBinding hname t t' ht
  | expression command inner ih =>
      apply (ih hlookups).andThen
      rintro text _ rfl
      exact law.applyCommand command text
  | stray value => exact steps_fail (law.errors_self _ trivial)

end Expansion

theorem tokens {tokens : List Token} (h : ∀ token ∈ tokens, ∀ name ∈ token.lookups, name ∈ names) :
    c.Tokens tokens tokens := fun _ _ hexp =>
  .evaluateTokens (List.forall₂_same.mpr fun token ht => law.evaluateToken hexp (h token ht))

/-! ### Cognates -/

/-- From states with the same suitable groups both selections fail or choose the same rule. -/
theorem select {g : Grammar} {name : String} {rules : Rule → Rule → Prop} (hs : c.states s s')
    (hsuitable : ∀ cognate, g.get? name = some cognate →
      Grammar.suitable s'.context cognate = Grammar.suitable s.context cognate)
    (hnone : c.errors (.noSuitableGroups name s.context.tags)
      (.noSuitableGroups name s'.context.tags))
    (hchoose : ∀ cognate group rule index total, g.get? name = some cognate →
      group ∈ Grammar.suitable s.context cognate → rule ∈ group.rules →
      rules rule rule ∧ c.states (s.choose name group rule index total)
        (s'.choose name group rule index total)) :
    c.Ends rules (g.select name s) (g.select name s') := by
  unfold Grammar.select
  cases hc : g.get? name with
  | none => exact .error (law.errors_self _ trivial) hs
  | some cognate =>
      simp only [hsuitable cognate hc, law.chance_eq hs]
      split
      · exact .error (law.errors_self _ trivial) hs
      · split
        · exact .error hnone hs
        · split
          · rename_i hpos
            obtain ⟨hgroup, hrule⟩ := ruleAt_mem (Grammar.index_lt s.chance hpos)
            obtain ⟨hrules, hchosen⟩ := hchoose cognate _ _ _ _ hc hgroup hrule
            exact .ok hrules hchosen
          · exact .error (law.errors_self _ trivial) hs

/-- With no level of nesting left both expansions fail. -/
theorem last {g g' : Grammar} {name : String}
    (h : c.errors (.recursionLimitExceeded name g.maxDepth)
      (.recursionLimitExceeded name g'.maxDepth)) :
    c.Steps Eq (g.expandCognate 0 name) (g'.expandCognate 0 name) :=
  fun _ _ hs => .error h (law.request name hs)

end Law

theorem Law.tokens_univ (law : c.Law Set.univ) (tokens : List Token) : c.Tokens tokens tokens :=
  law.tokens fun _ _ name _ => Set.mem_univ name

/-- Selections in the two grammars choose rules whose tokens evaluate alike, and where no level of
nesting is left in the first grammar, cognates end alike with so many more in the second. -/
structure Grammars (c : Comparison) (g g' : Grammar) (more : Nat) : Prop where
  select : ∀ name, c.Steps (fun rule rule' => c.Tokens rule.tokens rule'.tokens)
    (g.select name) (g'.select name)
  last : ∀ name, c.Steps Eq (g.expandCognate 0 name) (g'.expandCognate more name)

namespace Grammars

variable {g g' : Grammar} {more : Nat} {names : Set String} (h : c.Grammars g g' more)
  (law : c.Law names)
include h law

theorem expandCognate (levels : Nat) (name : String) :
    c.Steps Eq (g.expandCognate levels name) (g'.expandCognate (levels + more) name) := by
  induction levels generalizing name with
  | zero =>
      rw [Nat.zero_add]
      exact h.last name
  | succ levels ih =>
      have hexp : c.Expands (g.expandCognate levels) (g'.expandCognate (levels + more)) :=
        ⟨ih, scopeLaw.expandCognate g levels, scopeLaw.expandCognate g' _⟩
      have hbody := (h.select name).andThen fun _ _ htokens => htokens _ _ hexp
      rw [Nat.add_right_comm]
      intro s s' hs
      have hrequested := law.request name hs
      exact law.inFrame hrequested (hbody _ _ (law.opened hrequested))
        (scopeLaw.selectAndEvaluate hexp.scope g name)
        (scopeLaw.selectAndEvaluate hexp.scope' g' name)

theorem expands (levels : Nat) :
    c.Expands (g.expandCognate levels) (g'.expandCognate (levels + more)) :=
  ⟨h.expandCognate law levels, scopeLaw.expandCognate g levels, scopeLaw.expandCognate g' _⟩

theorem generateWith (hs : c.states s s')
    (hlevels : g'.levels s'.context = g.levels s.context + more) (name : String) :
    c.Ends Eq (g.generateWith name s) (g'.generateWith name s') := by
  rw [Grammar.generateWith, Grammar.generateWith, hlevels]
  exact h.expandCognate law _ name s s' hs

theorem evaluate (hs : c.states s s')
    (hlevels : g'.levels s'.context = g.levels s.context + more) {tokens tokens' : List Token}
    (htokens : c.Tokens tokens tokens') :
    c.Ends Eq (g.evaluate tokens s) (g'.evaluate tokens' s') := by
  rw [Grammar.evaluate, Grammar.evaluate, hlevels]
  exact htokens _ _ (h.expands law _) s s' hs

/-- The levels that are left for a template are counted behind the opening of its frame. -/
theorem expandWith (hs : c.states s s')
    (hlevels : g'.levels s'.opened.context = g.levels s.opened.context + more) {literal : String}
    (htokens : ∀ rule, Rule.ofLiteral literal = .ok rule → c.Tokens rule.tokens rule.tokens) :
    c.Ends Eq (g.expandWith literal s) (g'.expandWith literal s') := by
  unfold Grammar.expandWith
  cases hrule : Rule.ofLiteral literal with
  | error e => exact .error (law.errors_self _ trivial) hs
  | ok rule =>
      exact law.inFrame hs (h.evaluate law (law.opened hs) hlevels (htokens rule hrule))
        (scopeLaw.evaluate g rule.tokens) (scopeLaw.evaluate g' rule.tokens)

end Grammars

end Comparison

end TaggedGrammar
