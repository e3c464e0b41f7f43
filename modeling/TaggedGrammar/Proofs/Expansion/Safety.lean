import TaggedGrammar.Proofs.Expansion.Law
import TaggedGrammar.Proofs.Expansion.Step
import TaggedGrammar.Proofs.Grammar.Parsed

/-!
# Expansions of parsed grammars

Tokens that were built by hand can ask for a number between bounds that hold none or for a
command that does not exist, or be no tokens at all. Tokens that come from templates cannot, so
a parsed grammar fails only for a reason that lies in its cognates, the tags, the bindings or the
limit of nesting, at any depth and whatever is drawn.

A rule is looked up with running totals of the numbers of rules: `groupPosition` is where
bisecting them puts the index, and `rulePosition` what is left of the index there.

## Main statements

* `leadsTo_ruleAt`: the totals lead to the rule at an index, and inside all bounds.
* `assignment_eq_error`: an assignment fails only where its expansion does.
* `Template.defect_ne_internal`: no template has an internal error.
* `Grammar.safe_evaluateToken`, `Grammar.safe_expandCognate`: what one token and one more level
  of nesting keep to.
* `Grammar.safe_generateWith_expandWith`: both entry points.
-/

namespace TaggedGrammar

/-! ### Looking up a rule -/

/-- The running totals of the numbers of rules. -/
def ruleBounds : List Group → List Nat
  | [] => []
  | g :: gs => g.rules.length :: (ruleBounds gs).map (g.rules.length + ·)

/-- The position that an index has among the running totals, behind those that are equal. -/
def groupPosition (gs : List Group) (i : Nat) : Nat := (ruleBounds gs).countP (· ≤ i)

/-- The number of rules before the group at the position of an index. -/
def rulesBefore (gs : List Group) (i : Nat) : Nat :=
  ((0 :: ruleBounds gs)[groupPosition gs i]?).getD 0

/-- What is left of an index in the group at its position. -/
def rulePosition (gs : List Group) (i : Nat) : Nat := i - rulesBefore gs i

/-- The running totals lead from an index to a rule: there is a group at its position, no more
rules before that group than the index says, and a rule at what is left. -/
structure LeadsTo (gs : List Group) (i : Nat) (group : Group) (rule : Rule) : Prop where
  group_eq : gs[groupPosition gs i]? = some group
  before_le : rulesBefore gs i ≤ i
  rule_eq : group.rules[rulePosition gs i]? = some rule

theorem groupPosition_cons_of_lt {g : Group} {gs : List Group} {i : Nat}
    (h : i < g.rules.length) : groupPosition (g :: gs) i = 0 := by
  rw [groupPosition, List.countP_eq_zero]
  intro total ht
  rcases List.mem_cons.mp ht with rfl | ht
  · simpa using h
  · obtain ⟨rest, -, rfl⟩ := List.mem_map.mp ht
    simp only [decide_eq_true_eq]
    omega

theorem groupPosition_cons_of_le {g : Group} {gs : List Group} {i : Nat}
    (h : g.rules.length ≤ i) :
    groupPosition (g :: gs) i = groupPosition gs (i - g.rules.length) + 1 := by
  rw [groupPosition, ruleBounds, List.countP_cons_of_pos (by simpa using h), List.countP_map]
  congr 1
  refine List.countP_congr fun total _ => ?_
  simp only [Function.comp_apply, decide_eq_true_eq]
  omega

theorem groupPosition_le (gs : List Group) (i : Nat) :
    groupPosition gs i ≤ (ruleBounds gs).length := List.countP_le_length

theorem rulesBefore_cons_of_le {g : Group} {gs : List Group} {i : Nat}
    (h : g.rules.length ≤ i) :
    rulesBefore (g :: gs) i = g.rules.length + rulesBefore gs (i - g.rules.length) := by
  have hle := groupPosition_le gs (i - g.rules.length)
  rw [rulesBefore, groupPosition_cons_of_le h, List.getElem?_cons_succ, ruleBounds, rulesBefore]
  have hmap : g.rules.length :: (ruleBounds gs).map (g.rules.length + ·) =
      (0 :: ruleBounds gs).map (g.rules.length + ·) := rfl
  rw [hmap, List.getElem?_map, List.getElem?_eq_getElem (by simpa using Nat.lt_succ_of_le hle)]
  rfl

/-- The running totals lead to the rule at an index. -/
theorem leadsTo_ruleAt {gs : List Group} {i : Nat} (h : i < ruleTotal gs) :
    LeadsTo gs i (ruleAt gs i h).1 (ruleAt gs i h).2 := by
  induction gs generalizing i with
  | nil => exact absurd h (Nat.not_lt_zero _)
  | cons g gs ih =>
      unfold ruleAt
      split
      · rename_i hi
        have hposition : groupPosition (g :: gs) i = 0 := groupPosition_cons_of_lt hi
        have hbefore : rulesBefore (g :: gs) i = 0 := by
          rw [rulesBefore, hposition]
          rfl
        refine ⟨by rw [hposition]; rfl, by omega, ?_⟩
        rw [rulePosition, hbefore, Nat.sub_zero, List.getElem?_eq_getElem hi]
      · rename_i hi
        have hle : g.rules.length ≤ i := Nat.le_of_not_lt hi
        obtain ⟨hgroup, hbefore, hrule⟩ := ih (i := i - g.rules.length)
          (by simp only [ruleTotal] at h; omega)
        have hadd : rulesBefore (g :: gs) i =
            g.rules.length + rulesBefore gs (i - g.rules.length) := rulesBefore_cons_of_le hle
        refine ⟨?_, by omega, ?_⟩
        · rwa [groupPosition_cons_of_le hle, List.getElem?_cons_succ]
        · rw [rulePosition] at hrule ⊢
          rwa [hadd, Nat.sub_add_eq]

/-! ### Templates that cannot be read -/

namespace Template

theorem plainSubstitution_defect_ne_internal {body : List Char} {first : Nat} {e : ParseError}
    (h : plainSubstitution body first = .error e) : e.defect ≠ .internal := by
  unfold plainSubstitution at h
  split at h
  · cases h; rintro ⟨⟩
  · rename_i rest
    split at h
    · rename_i ha
      obtain ⟨name, rule, hs, -⟩ := isAssignment_iff.mp ha
      simp [assignment, hs, Except.mapError] at h
    · cases h; rintro ⟨⟩
  · split at h <;> cases h; rintro ⟨⟩
  · split at h <;> cases h; rintro ⟨⟩
  · split at h
    · unfold range at h
      split at h <;> cases h; rintro ⟨⟩
    · cases h; rintro ⟨⟩
  · split at h <;> cases h; rintro ⟨⟩

theorem command_defect_ne_internal {body : List Char} {first : Nat} {e : ParseError}
    (h : command body first = .error e) : e.defect ≠ .internal := by
  unfold command at h
  simp only at h
  split at h
  · cases h; rintro ⟨⟩
  · split at h
    · cases h; rintro ⟨⟩
    · split at h
      · cases h; rintro ⟨⟩
      · split at h <;> cases h; rintro ⟨⟩

theorem substitution_defect_ne_internal {body : List Char} {first : Nat} {e : ParseError}
    (h : substitution body first = .error e) : e.defect ≠ .internal := by
  fun_induction substitution body first generalizing e with
  | case1 body first hb => exact plainSubstitution_defect_ne_internal h
  | case2 body first hb hc => cases h; rintro ⟨⟩
  | case3 body first hb hc e' he => cases h; exact command_defect_ne_internal he
  | case4 body first hb hc parts hp hlt ih =>
      cases hinner : substitution parts.inner parts.first with
      | ok token => rw [hinner] at h; cases h
      | error e' => rw [hinner] at h; cases h; exact ih hinner

theorem Scan.step_defect_ne_internal {s : Scan} {c : Char} {e : ParseError}
    (h : s.step c = .error e) : e.defect ≠ .internal := by
  unfold step at h
  split at h
  · cases h
  · split at h
    · split at h
      · cases hs : substitution s.pending.reverse s.start with
        | ok token => rw [hs] at h; cases h
        | error e' => rw [hs] at h; cases h; exact substitution_defect_ne_internal hs
      · cases h; rintro ⟨⟩
    · cases h

theorem Scan.run_defect_ne_internal {s : Scan} {cs : List Char} {e : ParseError}
    (h : s.run cs = .error e) : e.defect ≠ .internal := by
  induction cs generalizing s with
  | nil => cases h
  | cons c cs ih =>
      rw [run] at h
      split at h
      · exact ih h
      · rename_i hstep
        cases h
        exact step_defect_ne_internal hstep

/-- No template has an internal error. -/
theorem defect_ne_internal {template : String} {e : ParseError}
    (h : parse template = .error e) : e.defect ≠ .internal := by
  unfold parse parseChars at h
  split at h
  · cases h; rintro ⟨⟩
  · split at h
    · cases h; rintro ⟨⟩
    · cases hr : Scan.initial.run template.toList with
      | ok s => rw [hr] at h; cases h
      | error e' => rw [hr] at h; cases h; exact Scan.run_defect_ne_internal hr

end Template

/-! ### Assignments -/

/-- An assignment fails only where the expansion does whose text it binds: the text that it
reads again is there. -/
theorem assignment_eq_error {expand : String → Step String} {name rule : String} {s t : State}
    {e : ExpansionError} (h : evaluateToken expand (.assignment name rule) s = (.error e, t)) :
    expand rule s = (.error e, t) := by
  unfold evaluateToken at h
  split at h
  · cases h
  · rcases Step.andThen_eq_error h with hbind | ⟨value, u, hbind, hread⟩
    · exact bindTo_eq_error hbind
    · obtain ⟨v, -, rfl⟩ := bindTo_eq_ok_iff.mp hbind
      have hself : (v.bound name value (.assigned name value)).context.binding? name =
          some value := Table.get?_insert_self _ _ _
      rw [readBinding_eq_ok_iff.mpr ⟨hself, rfl⟩] at hread
      cases hread

/-! ### Safe steps -/

/-- The reasons for a failure that lie in the cognates, the tags, the bindings or the limit. -/
def ExpansionError.IsExpected : ExpansionError → Prop
  | unknownCognate _ => True
  | emptyCognate _ => True
  | noSuitableGroups _ _ => True
  | unboundVariable _ => True
  | recursionLimitExceeded _ _ => True
  | invalidRule _ => False
  | unknownCommand _ => False
  | notAToken _ => False

/-- A rule that was selected was found by running totals over the groups of its cognate that a
context accepted. -/
def Event.InBounds (g : Grammar) : Event → Prop
  | selected name group rule index total => ∃ c ctx, g.get? name = some c ∧
      total = ruleTotal (Grammar.suitable ctx c) ∧ index < total ∧
      LeadsTo (Grammar.suitable ctx c) index group rule
  | _ => True

/-- Between the two states every draw was from a range with numbers in it, and every rule was
looked up inside the bounds. -/
structure InBounds (g : Grammar) (s t : State) : Prop where
  draws : ∃ draws, t.chance.draws.toList = s.chance.draws.toList ++ draws ∧
    ∀ d ∈ draws, d.lower < d.upper
  events : ∃ events, s.Recorded events t ∧ ∀ e ∈ events, e.InBounds g

variable {g : Grammar}

theorem InBounds.refl (s : State) : InBounds g s s :=
  ⟨⟨[], (List.append_nil _).symm, nofun⟩, ⟨[], .refl s, nofun⟩⟩

theorem InBounds.trans {s t u : State} (h : InBounds g s t) (h' : InBounds g t u) :
    InBounds g s u := by
  obtain ⟨ds, hds, hd⟩ := h.draws
  obtain ⟨ds', hds', hd'⟩ := h'.draws
  obtain ⟨es, hes, he⟩ := h.events
  obtain ⟨es', hes', he'⟩ := h'.events
  refine ⟨⟨ds ++ ds', by rw [hds', hds, List.append_assoc], ?_⟩, ⟨es ++ es', hes.trans hes', ?_⟩⟩
  · exact List.forall_mem_append.mpr ⟨hd, hd'⟩
  · exact List.forall_mem_append.mpr ⟨he, he'⟩

theorem InBounds.draw (s : State) {lower upper : Int} (h : lower < upper) :
    InBounds g s (s.draw lower upper) := by
  refine ⟨⟨[⟨lower, upper, s.chance.value lower upper⟩], by simp, ?_⟩, ⟨[], .refl s, nofun⟩⟩
  rintro d hd
  rw [List.mem_singleton.mp hd]
  exact h

theorem InBounds.note {s t : State} (h : InBounds g s t) {event : Event}
    (he : event.InBounds g) : InBounds g s (t.note event) := by
  refine h.trans ⟨⟨[], (List.append_nil _).symm, nofun⟩, ⟨[event], t.recorded_note event, ?_⟩⟩
  rintro e hm
  rwa [List.mem_singleton.mp hm]

namespace Step

variable {α β : Type}

/-- Every run of the step stays inside the bounds, and fails only for an expected reason. -/
structure Safe (g : Grammar) (step : Step α) : Prop where
  within : step.Within (InBounds g)
  isExpected : ∀ s e, (step s).1 = .error e → e.IsExpected

theorem safe_pure (a : α) : (Step.pure a).Safe g := ⟨InBounds.refl, nofun⟩

theorem safe_fail {e : ExpansionError} (h : e.IsExpected) : (Step.fail e : Step α).Safe g := by
  refine ⟨InBounds.refl, ?_⟩
  rintro s e' he
  cases he
  exact h

/-- What follows a step has to be safe only for the values that the step can answer with. -/
theorem Safe.andThen {step : Step α} {next : α → Step β} (h : step.Safe g)
    (hn : ∀ s a t, step s = (.ok a, t) → (next a).Safe g) : (step.andThen next).Safe g := by
  constructor
  · intro s
    have hfirst := h.within s
    unfold Step.andThen
    cases hr : step s with
    | mk result t =>
        rw [hr] at hfirst
        cases result with
        | ok a => exact hfirst.trans ((hn s a t hr).within t)
        | error e => exact hfirst
  · intro s e he
    have hfirst := h.isExpected s
    unfold Step.andThen at he
    cases hr : step s with
    | mk result t =>
        rw [hr] at he hfirst
        cases result with
        | ok a => exact (hn s a t hr).isExpected t e he
        | error e' =>
            cases he
            exact hfirst _ rfl

theorem Safe.map {step : Step α} (h : step.Safe g) (f : α → β) : (step.map f).Safe g := by
  refine ⟨h.within.map f, ?_⟩
  intro s e he
  have hfirst := h.isExpected s
  unfold Step.map at he
  cases hr : step s with
  | mk result t =>
      rw [hr] at he hfirst
      cases result with
      | ok a => cases he
      | error e' =>
          cases he
          exact hfirst _ rfl

theorem Safe.inFrame {step : Step α} (h : step.Safe g) : step.inFrame.Safe g :=
  ⟨fun s => ⟨(h.within s.opened).draws, (h.within s.opened).events⟩,
    fun s => h.isExpected s.opened⟩

end Step

/-! ### Tokens -/

section Tokens

theorem safe_boundOr (name : String) {step : Step String} (h : step.Safe g) :
    (boundOr name step).Safe g := by
  constructor
  · intro s
    unfold boundOr
    split
    · exact InBounds.refl s
    · exact h.within s
  · intro s e he
    unfold boundOr at he
    split at he
    · cases he
    · exact h.isExpected s e he

theorem safe_bindTo {name : String} {event : String → String → Event}
    (he : ∀ value, (event name value).InBounds g) {step : Step String} (h : step.Safe g) :
    (bindTo name event step).Safe g := by
  refine h.andThen fun _ value _ _ => ⟨fun s => ?_, nofun⟩
  have hs := (InBounds.refl (g := g) s).note (he value)
  exact ⟨hs.draws, hs.events⟩

theorem safe_readBinding (name : String) : (readBinding name).Safe g :=
  safe_boundOr name (Step.safe_fail trivial)

theorem safe_drawNumber {lower upper : Int} (h : lower < upper) :
    (drawNumber lower upper).Safe g :=
  ⟨fun s => InBounds.draw s h, nofun⟩

theorem safe_applyCommand {command : String} (h : ∃ c, Command.ofName? command = some c)
    (text : String) : (applyCommand command text).Safe g := by
  obtain ⟨c, hc⟩ := h
  rw [applyCommand, hc]
  exact Step.safe_pure _

variable {expand : String → Step String} (hexp : ∀ name, (expand name).Safe g)
include hexp

theorem Grammar.safe_evaluateToken {token : Token} (h : token.Regular) :
    (evaluateToken expand token).Safe g := by
  induction token with
  | literal text => exact Step.safe_pure text
  | nonTerminal name => exact safe_boundOr name (hexp name)
  | sticky name =>
      have hstuck (value : String) : (Event.stuck name value).InBounds g := trivial
      have hbind := safe_bindTo hstuck (hexp name)
      exact safe_boundOr name hbind
  | binding name => exact safe_readBinding name
  | range lower upper => exact safe_drawNumber h
  | assignment name rule =>
      have hassigned (value : String) : (Event.assigned name value).InBounds g := trivial
      have hbind := safe_bindTo hassigned (hexp rule)
      constructor
      · intro s
        unfold evaluateToken
        split
        · exact InBounds.refl s
        · exact (hbind.andThen fun _ _ _ _ => safe_readBinding name).within s
      · intro s e he
        have hfails : evaluateToken expand (.assignment name rule) s =
            (.error e, (evaluateToken expand (.assignment name rule) s).2) := Prod.ext he rfl
        have hexpand := assignment_eq_error hfails
        exact (hexp rule).isExpected s e (congrArg Prod.fst hexpand)
  | expression command inner ih =>
      exact (ih h.2).andThen fun _ text _ _ => safe_applyCommand h.1 text
  | stray value => exact h.elim

theorem Grammar.safe_evaluateTokens {tokens : List Token}
    (h : ∀ token ∈ tokens, token.Regular) : (evaluateTokens expand tokens).Safe g := by
  induction tokens with
  | nil => exact Step.safe_pure ""
  | cons token rest ih =>
      obtain ⟨hfirst, hrest⟩ := List.forall_mem_cons.mp h
      exact (safe_evaluateToken hexp hfirst).andThen fun _ _ _ _ => (ih hrest).map _

end Tokens

/-! ### Cognates and entry points -/

namespace Grammar

theorem isExpected_of_select {name : String} {s : State} {e : ExpansionError}
    (h : (g.select name s).1 = .error e) : e.IsExpected := by
  rcases error_of_select h with rfl | rfl | rfl
  · trivial
  · trivial
  · trivial

theorem safe_select (name : String) : (g.select name).Safe g := by
  refine ⟨fun s => ?_, fun s e => isExpected_of_select⟩
  rcases g.select_cases name s with ⟨e, he⟩ | ⟨c, group, rule, index, hc, -, hr, he⟩
  · rw [he]
    exact InBounds.refl s
  · rw [he]
    obtain ⟨hlt, -⟩ := List.getElem?_eq_some_iff.mp hr
    have htotal : (offered s.context c).length = ruleTotal (suitable s.context c) :=
      length_rulesInRow _
    have hindex : index < ruleTotal (suitable s.context c) := htotal ▸ hlt
    have hat : ruleAt (suitable s.context c) index hindex = (group, rule) :=
      Option.some.inj ((getElem?_rulesInRow hindex).symm.trans hr)
    have hlead := leadsTo_ruleAt hindex
    rw [hat] at hlead
    have hdraw : InBounds g s (s.draw 0 (offered s.context c).length) := .draw s (by omega)
    have hnote : InBounds g s ((s.draw 0 (offered s.context c).length).note
        (.selected name group rule index (offered s.context c).length)) :=
      hdraw.note ⟨c, s.context, hc, htotal, hlt, hlead⟩
    exact ⟨hnote.draws, hnote.events⟩

/-- The rule that a selection answers with is one of the grammar. -/
theorem mem_of_select {name : String} {s t : State} {rule : Rule}
    (h : g.select name s = (.ok rule, t)) :
    ∃ c group, g.get? name = some c ∧ group ∈ c.groups ∧ rule ∈ group.rules := by
  rcases g.select_cases name s with ⟨e, he⟩ | ⟨c, group, rule', index, hc, -, hr, he⟩
  · rw [he] at h
    cases h
  · rw [he] at h
    cases h
    obtain ⟨hgroup, -, hrule⟩ := mem_offered.mp (List.mem_of_getElem? hr)
    exact ⟨c, group, hc, hgroup, hrule⟩

variable (hg : g.Parsed)
include hg

theorem safe_expandCognate (levels : Nat) (name : String) :
    (g.expandCognate levels name).Safe g := by
  induction levels generalizing name with
  | zero =>
      refine ⟨fun s => (InBounds.refl s).note trivial, ?_⟩
      intro s e he
      cases he
      trivial
  | succ levels ih =>
      have hbody : ((g.select name).andThen fun rule =>
          evaluateTokens (g.expandCognate levels) rule.tokens).Safe g := by
        refine (safe_select name).andThen fun s rule t hr => ?_
        obtain ⟨c, group, hc, hgroup, hrule⟩ := mem_of_select hr
        exact safe_evaluateTokens ih (hg.regular hc hgroup hrule)
      constructor
      · intro s
        have hrequest : InBounds g s (s.requested name) := (InBounds.refl s).note trivial
        exact hrequest.trans (hbody.inFrame.within (s.requested name))
      · intro s
        exact hbody.inFrame.isExpected (s.requested name)

theorem safe_generateWith (name : String) : (g.generateWith name).Safe g :=
  ⟨fun s => (safe_expandCognate hg (g.levels s.context) name).within s,
    fun s => (safe_expandCognate hg (g.levels s.context) name).isExpected s⟩

theorem safe_expandRule {rule : Rule} (hr : rule.Parsed) :
    (Step.inFrame (g.evaluate rule.tokens)).Safe g := by
  have htokens (s : State) : (evaluateTokens (g.expandCognate (g.levels s.context))
      rule.tokens).Safe g :=
    safe_evaluateTokens (safe_expandCognate hg _) (Template.regular_of_parse hr)
  exact Step.Safe.inFrame ⟨fun s => (htokens s).within s, fun s => (htokens s).isExpected s⟩

/-- A parsed grammar expands cognates and templates safely. A template that cannot be read is
told before anything has happened, and is no internal error; and at any depth an assignment
fails only where its expansion fails. -/
theorem safe_generateWith_expandWith :
    (∀ name, (g.generateWith name).Safe g) ∧
    (∀ literal, (∃ e, Rule.ofLiteral literal = .error e ∧ e.error.defect ≠ .internal ∧
        ∀ s, g.expandWith literal s = (.error (.invalidRule e), s)) ∨
      (∃ rule, Rule.ofLiteral literal = .ok rule) ∧ (g.expandWith literal).Safe g) ∧
    ∀ levels name rule s e t,
      evaluateToken (g.expandCognate levels) (.assignment name rule) s = (.error e, t) →
        g.expandCognate levels rule s = (.error e, t) := by
  refine ⟨safe_generateWith hg, ?_, fun _ _ _ _ _ _ => assignment_eq_error⟩
  intro literal
  cases hr : Rule.ofLiteral literal with
  | error e =>
      have hparse := (Rule.ofLiteral_eq_error_iff.mp hr).2
      refine Or.inl ⟨e, rfl, Template.defect_ne_internal hparse, fun s => ?_⟩
      rw [expandWith, hr]
      rfl
  | ok rule =>
      refine Or.inr ⟨⟨rule, rfl⟩, ?_⟩
      rw [expandWith, hr]
      exact safe_expandRule hg (Rule.ofLiteral_eq_ok_iff.mp hr).2

end Grammar

theorem safe_farm_tale : farm.Parsed ∧ (farm.generateWith "tale").Safe farm :=
  ⟨parsed_farm, (Grammar.safe_generateWith_expandWith parsed_farm).1 "tale"⟩

end TaggedGrammar
