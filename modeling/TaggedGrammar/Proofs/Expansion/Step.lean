import TaggedGrammar.Proofs.Expansion.Law

/-!
# Steps that answer with a text

What has to have happened where a step answers with a value: each of the steps before it
answered too, in the states between. Where it fails, one of its steps did.

## Main statements

* `Step.andThen_eq_ok_iff`, `Step.inFrame_eq_ok_iff`: a sequence of two steps, and a step in a
  frame of its own.
* `Step.andThen_assoc`, `Step.map_andThen`: how sequences of three steps are put together.
* `boundOr_eq_ok_iff`, `bindTo_eq_ok_iff`: looking a name up and binding it.
* `Step.andThen_eq_error`, `boundOr_eq_error`, `bindTo_eq_error`: where these fail.
-/

namespace TaggedGrammar

namespace Step

variable {α β : Type} {step : Step α} {s u : State}

theorem andThen_of_eq {next : α → Step β} {a : α} {t : State} (h : step s = (.ok a, t)) :
    step.andThen next s = next a t := by
  rw [andThen, h]

theorem andThen_eq_ok_iff {next : α → Step β} {b : β} :
    step.andThen next s = (.ok b, u) ↔
      ∃ a t, step s = (.ok a, t) ∧ next a t = (.ok b, u) := by
  constructor
  · intro h
    cases hs : step s with
    | mk result t =>
        cases result with
        | ok a => exact ⟨a, t, rfl, (andThen_of_eq hs).symm.trans h⟩
        | error e =>
            rw [andThen, hs] at h
            cases h
  · rintro ⟨a, t, hs, hn⟩
    exact (andThen_of_eq hs).trans hn

theorem andThen_eq_error {next : α → Step β} {e : ExpansionError}
    (h : step.andThen next s = (.error e, u)) :
    step s = (.error e, u) ∨ ∃ a t, step s = (.ok a, t) ∧ next a t = (.error e, u) := by
  cases hs : step s with
  | mk result t =>
      cases result with
      | ok a => exact Or.inr ⟨a, t, rfl, (andThen_of_eq hs).symm.trans h⟩
      | error e' =>
          rw [andThen, hs] at h
          cases h
          exact Or.inl rfl

theorem map_eq_ok_iff {f : α → β} {b : β} :
    step.map f s = (.ok b, u) ↔ ∃ a, step s = (.ok a, u) ∧ f a = b := by
  unfold map
  cases step s with
  | mk result t =>
      cases result with
      | ok a =>
          simp only [Prod.mk.injEq, Except.ok.injEq]
          constructor
          · rintro ⟨hb, ht⟩
            exact ⟨a, ⟨rfl, ht⟩, hb⟩
          · rintro ⟨a', ⟨rfl, ht⟩, hb⟩
            exact ⟨hb, ht⟩
      | error e => simp

/-- Changing the value of a step is a step behind it. -/
theorem map_eq_andThen (f : α → β) (step : Step α) :
    step.map f = step.andThen fun a => Step.pure (f a) := rfl

theorem result_map (f : α → β) (step : Step α) (s : State) :
    (step.map f s).1 = (step s).1.map f := by
  unfold map
  cases step s with
  | mk result t =>
      cases result with
      | ok a => rfl
      | error e => rfl

theorem state_map (f : α → β) (step : Step α) (s : State) : (step.map f s).2 = (step s).2 := by
  unfold map
  cases step s with
  | mk result t =>
      cases result with
      | ok a => rfl
      | error e => rfl

theorem andThen_assoc {γ : Type} (step : Step α) (next : α → Step β) (last : β → Step γ) :
    (step.andThen next).andThen last = step.andThen fun a => (next a).andThen last := by
  funext s
  unfold andThen
  cases step s with
  | mk result t =>
      cases result with
      | ok a => rfl
      | error e => rfl

theorem map_andThen {γ : Type} (f : β → γ) (step : Step α) (next : α → Step β) :
    (step.andThen next).map f = step.andThen fun a => (next a).map f :=
  andThen_assoc step next _

theorem map_map {γ : Type} (f : α → β) (f' : β → γ) (step : Step α) :
    (step.map f).map f' = step.map fun a => f' (f a) :=
  andThen_assoc step _ _

theorem map_id (step : Step α) : (step.map fun a => a) = step := by
  funext s
  unfold map
  cases step s with
  | mk result t =>
      cases result with
      | ok a => rfl
      | error e => rfl

theorem inFrame_congr {step' : Step α} (h : step s.opened = step' s.opened) :
    step.inFrame s = step'.inFrame s := by
  change ((step s.opened).1, (step s.opened).2.closed) = _
  rw [h]
  rfl

theorem inFrame_eq_ok_iff {a : α} :
    inFrame step s = (.ok a, u) ↔ ∃ t, step s.opened = (.ok a, t) ∧ u = t.closed := by
  change ((step s.opened).1, (step s.opened).2.closed) = (.ok a, u) ↔ _
  constructor
  · intro h
    obtain ⟨hresult, hstate⟩ := Prod.mk.inj h
    exact ⟨_, Prod.ext hresult rfl, hstate.symm⟩
  · rintro ⟨t, ht, rfl⟩
    rw [ht]

end Step

variable {name text : String} {step : Step String} {s u : State}

theorem boundOr_eq_ok_iff : boundOr name step s = (.ok text, u) ↔
    s.context.binding? name = some text ∧ s = u ∨
      s.context.isBound name = false ∧ step s = (.ok text, u) := by
  rw [Context.isBound_eq_false_iff]
  unfold boundOr
  cases s.context.binding? name with
  | none => simp
  | some value => simp

theorem bindTo_eq_ok_iff {event : String → String → Event} :
    bindTo name event step s = (.ok text, u) ↔
      ∃ t, step s = (.ok text, t) ∧ u = t.bound name text (event name text) := by
  unfold bindTo
  rw [Step.andThen_eq_ok_iff]
  constructor
  · rintro ⟨value, t, hs, h⟩
    obtain ⟨hvalue, hstate⟩ := Prod.mk.inj h
    cases hvalue
    exact ⟨t, hs, hstate.symm⟩
  · rintro ⟨t, hs, rfl⟩
    exact ⟨text, t, hs, rfl⟩

theorem boundOr_eq_error {e : ExpansionError} (h : boundOr name step s = (.error e, u)) :
    step s = (.error e, u) := by
  unfold boundOr at h
  split at h
  · cases h
  · exact h

theorem bindTo_eq_error {event : String → String → Event} {e : ExpansionError}
    (h : bindTo name event step s = (.error e, u)) : step s = (.error e, u) := by
  rcases Step.andThen_eq_error h with hs | ⟨value, t, -, hbind⟩
  · exact hs
  · cases hbind

theorem readBinding_eq_ok_iff :
    readBinding name s = (.ok text, u) ↔ s.context.binding? name = some text ∧ s = u := by
  rw [readBinding, boundOr_eq_ok_iff, Step.fail]
  simp

/-- An assignment leaves a name that is bound alone, and reads the text that it binds. -/
theorem assignment_eq_ok_iff {expand : String → Step String} {rule : String} :
    evaluateToken expand (.assignment name rule) s = (.ok text, u) ↔
      s.context.isBound name = true ∧ text = "" ∧ s = u ∨
        s.context.isBound name = false ∧
          ∃ t, expand rule s = (.ok text, t) ∧ u = t.bound name text (.assigned name text) := by
  unfold evaluateToken
  cases hb : s.context.isBound name with
  | true => simp [eq_comm]
  | false =>
      simp only [Bool.false_eq_true, if_false, false_and, false_or, true_and]
      rw [Step.andThen_eq_ok_iff]
      have hself (t : State) (value : String) :
          (t.bound name value (.assigned name value)).context.binding? name = some value :=
        Table.get?_insert_self _ _ _
      constructor
      · rintro ⟨value, t, hbind, hread⟩
        obtain ⟨v, hexpand, rfl⟩ := bindTo_eq_ok_iff.mp hbind
        obtain ⟨hvalue, rfl⟩ := readBinding_eq_ok_iff.mp hread
        obtain rfl := Option.some.inj ((hself v value).symm.trans hvalue)
        exact ⟨v, hexpand, rfl⟩
      · rintro ⟨t, hexpand, rfl⟩
        exact ⟨text, _, bindTo_eq_ok_iff.mpr ⟨t, hexpand, rfl⟩,
          readBinding_eq_ok_iff.mpr ⟨hself t text, rfl⟩⟩

theorem applyCommand_eq_ok_iff {value : String} :
    applyCommand name value s = (.ok text, u) ↔
      ∃ c, Command.ofName? name = some c ∧ c.apply value = text ∧ s = u := by
  unfold applyCommand
  cases Command.ofName? name with
  | none => simp [Step.fail]
  | some c => simp [Step.pure]

theorem Grammar.expandCognate_succ (g : Grammar) (levels : Nat) (name : String) (s : State) :
    g.expandCognate (levels + 1) name s =
      Step.inFrame ((g.select name).andThen fun rule =>
        evaluateTokens (g.expandCognate levels) rule.tokens) (s.requested name) := rfl

end TaggedGrammar
