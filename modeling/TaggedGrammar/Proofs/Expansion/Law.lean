import TaggedGrammar.Expansion.Basic
import TaggedGrammar.Proofs.Context
import TaggedGrammar.Proofs.Expansion.Selection

/-!
# Laws of expansions

What an expansion does to the state is said by two relations between the state before and the
state after. The inner one is about tokens, which are evaluated in the frame that is open. The
outer one is about cognates, which are expanded in a frame of their own. A `StateLaw` asks of
the relations what the single steps need: drawing, choosing a rule, binding a name, opening and
closing a frame. Every evaluation and every expansion then keeps to them, whether it gives a
text or fails.

## Main statements

* `StateLaw.evaluateTokens`: evaluating tokens keeps to the inner relation.
* `StateLaw.expandCognate`: expanding a cognate keeps to the outer relation.
* `StateLaw.generateWith`, `StateLaw.evaluate`, `StateLaw.expandWith`: so do the entry points.

## Implementation notes

A name is bound behind the expansion of a cognate, and it was looked up before. The law on
binding therefore speaks of both states, and it may use that the expansion kept to the outer
relation.
-/

namespace TaggedGrammar

/-- The name and the text that an event says were bound. -/
def Event.bound? : Event → Option (String × String)
  | .stuck name value => some (name, value)
  | .assigned name value => some (name, value)
  | .requested _ _ => none
  | .selected _ _ _ _ _ => none

namespace State

/-- The state after a name was bound. -/
def bound (s : State) (name value : String) (event : Event) : State :=
  (s.withContext (s.context.bind name value)).note event

/-- The state after the expansion of a cognate was asked for. -/
def requested (s : State) (name : String) : State := s.note (.requested name s.context.depth)

/-- The state after a frame was opened. -/
def opened (s : State) : State := s.withContext s.context.descend

/-- The state after a frame was closed. -/
def closed (s : State) : State := s.withContext s.context.ascend

/-- The record of the second state is that of the first with events behind it. -/
def Recorded (s : State) (events : List Event) (t : State) : Prop :=
  t.events.toList = s.events.toList ++ events

theorem Recorded.refl (s : State) : s.Recorded [] s := (List.append_nil _).symm

theorem Recorded.trans {s t u : State} {es fs : List Event} (h : s.Recorded es t)
    (h' : t.Recorded fs u) : s.Recorded (es ++ fs) u := by
  unfold Recorded at *
  rw [h', h, List.append_assoc]

theorem recorded_note (s : State) (e : Event) : s.Recorded [e] (s.note e) := by
  simp [Recorded]

end State

namespace Step

variable {α β : Type} {R : State → State → Prop}

/-- Every run of the step ends in a state that the relation allows, also where it fails. -/
def Within (R : State → State → Prop) (step : Step α) : Prop := ∀ s, R s (step s).2

theorem Within.of_eq {step : Step α} (h : step.Within R) {s t : State}
    {result : Except ExpansionError α} (hr : step s = (result, t)) : R s t := by
  have hs := h s
  rwa [hr] at hs

theorem Within.andThen (trans : ∀ s t u, R s t → R t u → R s u) {step : Step α}
    {next : α → Step β} (h : step.Within R) (hn : ∀ a, (next a).Within R) :
    (step.andThen next).Within R := by
  intro s
  have hs := h s
  unfold Step.andThen
  cases hr : step s with
  | mk result t =>
      rw [hr] at hs
      cases result with
      | ok a => exact trans s t _ hs (hn a t)
      | error e => exact hs

theorem Within.map {step : Step α} (h : step.Within R) (f : α → β) :
    (step.map f).Within R := by
  intro s
  have hs := h s
  unfold Step.map
  cases hr : step s with
  | mk result t =>
      rw [hr] at hs
      cases result with
      | ok a => exact hs
      | error e => exact hs

end Step

/-- What two relations between states need so that evaluating tokens keeps to the first and
expanding cognates to the second. -/
structure StateLaw (inner outer : State → State → Prop) : Prop where
  inner_trans : ∀ s t u, inner s t → inner t u → inner s u
  inner_of_outer : ∀ s t, outer s t → inner s t
  outer_refl : ∀ s, outer s s
  outer_trans : ∀ s t u, outer s t → outer t u → outer s u
  draw : ∀ s lower upper, inner s (s.draw lower upper)
  choose : ∀ s name group rule index total, s.context.accepts group = true →
    inner s (s.choose name group rule index total)
  bind : ∀ {s t name value event}, s.context.isBound name = false → outer s t →
    event.bound? = some (name, value) → inner s (t.bound name value event)
  request : ∀ s name, outer s (s.requested name)
  frame : ∀ {s t}, inner s.opened t → outer s t.closed

namespace StateLaw

open Step

variable {inner outer : State → State → Prop} (law : StateLaw inner outer)
include law

theorem inner_refl (s : State) : inner s s := law.inner_of_outer s s (law.outer_refl s)

/-! ### Tokens -/

section Tokens

variable {expand : String → Step String} (hexp : ∀ name, (expand name).Within outer)

theorem readBinding (name : String) : (readBinding name).Within inner := by
  intro s
  unfold TaggedGrammar.readBinding boundOr
  cases s.context.binding? name with
  | some value => exact law.inner_refl s
  | none => exact law.inner_refl s

include hexp

theorem boundOr_expand (name : String) : (boundOr name (expand name)).Within inner := by
  intro s
  unfold boundOr
  cases s.context.binding? name with
  | some value => exact law.inner_refl s
  | none => exact law.inner_of_outer s _ (hexp name s)

theorem bindTo_expand {name : String} {event : String → String → Event}
    (he : ∀ value, (event name value).bound? = some (name, value)) (rule : String) {s : State}
    (hs : s.context.isBound name = false) : inner s (bindTo name event (expand rule) s).2 := by
  have ho := hexp rule s
  unfold bindTo Step.andThen
  cases hr : expand rule s with
  | mk result t =>
      rw [hr] at ho
      cases result with
      | ok value => exact law.bind hs ho (he value)
      | error e => exact law.inner_of_outer s t ho

theorem evaluateToken (token : Token) : (evaluateToken expand token).Within inner := by
  induction token with
  | literal text => exact fun s => law.inner_refl s
  | nonTerminal name => exact law.boundOr_expand hexp name
  | sticky name =>
      intro s
      simp only [TaggedGrammar.evaluateToken, boundOr]
      cases hb : s.context.binding? name with
      | some value => exact law.inner_refl s
      | none =>
          exact law.bindTo_expand hexp (fun _ => rfl) name (Context.isBound_eq_false_iff.mpr hb)
  | binding name => exact law.readBinding name
  | range lower upper => exact fun s => law.draw s lower upper
  | assignment name rule =>
      intro s
      simp only [TaggedGrammar.evaluateToken]
      cases hb : s.context.isBound name with
      | true => exact law.inner_refl s
      | false =>
          have hbind : inner s (bindTo name .assigned (expand rule) s).2 :=
            law.bindTo_expand hexp (fun _ => rfl) rule hb
          simp only [Bool.false_eq_true, if_false, Step.andThen]
          cases hr : bindTo name .assigned (expand rule) s with
          | mk result t =>
              rw [hr] at hbind
              cases result with
              | ok value => exact law.inner_trans s t _ hbind (law.readBinding name t)
              | error e => exact hbind
  | expression command inner ih =>
      refine ih.andThen law.inner_trans fun text s => ?_
      unfold applyCommand
      cases Command.ofName? command with
      | some c => exact law.inner_refl s
      | none => exact law.inner_refl s
  | stray value => exact fun s => law.inner_refl s

theorem evaluateTokens (tokens : List Token) : (evaluateTokens expand tokens).Within inner := by
  induction tokens with
  | nil => exact fun s => law.inner_refl s
  | cons token rest ih =>
      exact (law.evaluateToken hexp token).andThen law.inner_trans fun _ => ih.map _

end Tokens

/-! ### Cognates and entry points -/

theorem inFrame {α : Type} {step : Step α} (h : step.Within inner) :
    (Step.inFrame step).Within outer := fun s => law.frame (h s.opened)

theorem select (g : Grammar) (name : String) : (g.select name).Within inner := by
  intro s
  rcases g.select_cases name s with ⟨e, he⟩ | ⟨c, group, rule, index, -, -, hr, he⟩
  · rw [he]
    exact law.inner_refl s
  · rw [he]
    exact law.choose s name group rule index _
      (Grammar.mem_offered.mp (List.mem_of_getElem? hr)).2.1

/-- What is done in the frame of a cognate. -/
theorem selectAndEvaluate {expand : String → Step String}
    (hexp : ∀ name, (expand name).Within outer) (g : Grammar) (name : String) :
    ((g.select name).andThen fun rule =>
      TaggedGrammar.evaluateTokens expand rule.tokens).Within inner :=
  (law.select g name).andThen law.inner_trans fun rule => law.evaluateTokens hexp rule.tokens

theorem expandCognate (g : Grammar) (levels : Nat) (name : String) :
    (g.expandCognate levels name).Within outer := by
  induction levels generalizing name with
  | zero => exact fun s => law.request s name
  | succ levels ih =>
      intro s
      have hbody := law.selectAndEvaluate ih g name
      exact law.outer_trans s _ _ (law.request s name) (law.inFrame hbody (s.requested name))

theorem evaluate (g : Grammar) (tokens : List Token) : (g.evaluate tokens).Within inner := by
  intro s
  exact law.evaluateTokens (law.expandCognate g (g.levels s.context)) tokens s

theorem generateWith (g : Grammar) (name : String) : (g.generateWith name).Within outer := by
  intro s
  exact law.expandCognate g (g.levels s.context) name s

theorem expandWith (g : Grammar) (literal : String) : (g.expandWith literal).Within outer := by
  unfold Grammar.expandWith
  cases Rule.ofLiteral literal with
  | error e => exact fun s => law.outer_refl s
  | ok rule => exact law.inFrame (law.evaluate g rule.tokens)

end StateLaw

end TaggedGrammar
