import Mathlib.Logic.Function.Iterate
import TaggedGrammar.Proofs.Expansion.Depth

/-!
# Expansions one step at a time

A machine expands cognates and templates in small steps. It has a task, a stack of what is pending
until the task is done, and the state of the expansion. Nothing in it counts down: the only thing
that keeps a grammar whose cognates request each other from going on forever is that the open
frames are compared with the limit before a cognate is expanded.

From every start the machine comes to a halt, with the answer and the state of the expansion. No
frame is opened by a cognate beyond the limit, and a template opens one frame whatever the limit
is, so the open frames are bounded at every moment. Only where a cognate is requested with as many
frames open as the limit allows does the machine fail at the limit.

## Main statements

* `follows_evaluateToken`, `follows_evaluateTokens`, `Grammar.follows_generateWith`: the machine
  does what tokens and cognates do.
* `Machine.failsAtLimit_step`: the only step that fails at the limit.
* `Grammar.finishes`: every run comes to its end, within the bounds.
-/

namespace TaggedGrammar

/-! ### The machine -/

/-- What the machine is about to do. -/
inductive Task where
  /-- Read a template and expand it in a frame of its own. -/
  | template (literal : String)
  /-- Expand a cognate, if the limit allows it. -/
  | expand (name : String)
  /-- Select a rule of a cognate in the frame that was opened for it. -/
  | select (name : String)
  /-- Evaluate tokens behind a text. -/
  | tokens (before : String) (rest : List Token)
  | token (token : Token)
  /-- Give an answer to what is pending. -/
  | done (result : Except ExpansionError String)

/-- What is to be done with the answer of a task. -/
inductive Pending where
  /-- Put a text behind another, and evaluate the tokens that follow. -/
  | join (before : String) (rest : List Token)
  | apply (command : String)
  /-- Bind a sticky name. -/
  | stick (name : String)
  /-- Bind an assigned name, and read it again. -/
  | assign (name : String)
  /-- Close a frame, whatever the answer is. -/
  | close

/-- A task, what is pending behind it, innermost first, and the state of the expansion. -/
structure Machine where
  task : Task
  pending : List Pending
  state : State

namespace Machine

/-- The number of open frames. -/
def frames (m : Machine) : Int := m.state.context.depth

/-- The machine that has the answer of a step. -/
def answer (step : Step String) (pending : List Pending) (s : State) : Machine :=
  ⟨.done (step s).1, pending, (step s).2⟩

/-- Begins with a token. -/
def begin (pending : List Pending) (s : State) : Token → Machine
  | .literal text => answer (Step.pure text) pending s
  | .nonTerminal name =>
    match s.context.binding? name with
    | some value => ⟨.done (.ok value), pending, s⟩
    | none => ⟨.expand name, pending, s⟩
  | .sticky name =>
    match s.context.binding? name with
    | some value => ⟨.done (.ok value), pending, s⟩
    | none => ⟨.expand name, .stick name :: pending, s⟩
  | .binding name => answer (readBinding name) pending s
  | .range lower upper => answer (drawNumber lower upper) pending s
  | .assignment name rule =>
    if s.context.isBound name then ⟨.done (.ok ""), pending, s⟩
    else ⟨.expand rule, .assign name :: pending, s⟩
  | .expression command inner => ⟨.token inner, .apply command :: pending, s⟩
  | .stray value => answer (Step.fail (.notAToken value)) pending s

/-- Goes on with an answer. -/
def resume (pending : List Pending) (s : State) : Pending → Except ExpansionError String → Machine
  | .close, result => ⟨.done result, pending, s.closed⟩
  | .join before rest, .ok text => ⟨.tokens (before ++ text) rest, pending, s⟩
  | .apply command, .ok text => answer (applyCommand command text) pending s
  | .stick name, .ok value => ⟨.done (.ok value), pending, s.bound name value (.stuck name value)⟩
  | .assign name, .ok value =>
    ⟨.token (.binding name), pending, s.bound name value (.assigned name value)⟩
  | _, .error e => ⟨.done (.error e), pending, s⟩

/-- Makes one step. A machine that has an answer and nothing pending stays as it is. -/
def step (g : Grammar) (m : Machine) : Machine :=
  match m.task, m.pending with
  | .template literal, pending =>
    match Rule.ofLiteral literal with
    | .error e => ⟨.done (.error (.invalidRule e)), pending, m.state⟩
    | .ok rule => ⟨.tokens "" rule.tokens, .close :: pending, m.state.opened⟩
  | .expand name, pending =>
    if g.maxDepth ≤ m.state.context.depth then
      ⟨.done (.error (.recursionLimitExceeded name g.maxDepth)), pending, m.state.requested name⟩
    else ⟨.select name, .close :: pending, (m.state.requested name).opened⟩
  | .select name, pending =>
    match g.select name m.state with
    | (.ok rule, t) => ⟨.tokens "" rule.tokens, pending, t⟩
    | (.error e, t) => ⟨.done (.error e), pending, t⟩
  | .tokens before [], pending => ⟨.done (.ok before), pending, m.state⟩
  | .tokens before (token :: rest), pending =>
    ⟨.token token, .join before rest :: pending, m.state⟩
  | .token token, pending => begin pending m.state token
  | .done _, [] => m
  | .done result, next :: pending => resume pending m.state next result

end Machine

/-! ### Runs within a bound -/

variable {g : Grammar} {bound : Int}

/-- Steps of the machine lead from one machine to another, and at none of them, the last one
included, are more frames open than the bound. -/
inductive Passes (g : Grammar) (bound : Int) : Machine → Machine → Prop where
  | refl {m : Machine} (h : m.frames ≤ bound) : Passes g bound m m
  | head {m next last : Machine} (h : m.frames ≤ bound) (step_eq : m.step g = next)
      (rest : Passes g bound next last) : Passes g bound m last

theorem Passes.right_le {m last : Machine} (h : Passes g bound m last) : last.frames ≤ bound := by
  induction h with
  | refl h => exact h
  | head _ _ _ ih => exact ih

theorem Passes.trans {m middle last : Machine} (h : Passes g bound m middle)
    (h' : Passes g bound middle last) : Passes g bound m last := by
  induction h with
  | refl _ => exact h'
  | head hm step_eq _ ih => exact .head hm step_eq (ih h')

/-- One more step at the end. -/
theorem Passes.concat {m middle last : Machine} (h : Passes g bound m middle)
    (step_eq : middle.step g = last) (hlast : last.frames ≤ bound) : Passes g bound m last :=
  h.trans (.head h.right_le step_eq (.refl hlast))

open Machine in
/-- The machine does for a task what a step does, within the bound and whatever is pending. -/
def Follows (g : Grammar) (bound : Int) (task : Task) (step : Step String) (s : State) : Prop :=
  ∀ pending, Passes g bound ⟨task, pending, s⟩ (answer step pending s)

/-- A step that the machine makes at once. -/
theorem follows_of_step {task : Task} {step : Step String} {s : State}
    (hs : (s.context.depth : Int) ≤ bound)
    (h : ∀ pending, Machine.step g ⟨task, pending, s⟩ = .answer step pending s)
    (hlast : (step s).2.context.depth = s.context.depth) : Follows g bound task step s := by
  have hframes : ((step s).2.context.depth : Int) ≤ bound := by
    rwa [hlast]
  intro pending
  exact .head hs (h pending) (.refl hframes)

section Follows

variable {task : Task} {step : Step String} {s : State}

/-- The frame in which a task is done is closed behind it. -/
theorem Follows.inFrame (h : Follows g bound task step s.opened) (pending : List Pending) :
    Passes g bound ⟨task, .close :: pending, s.opened⟩ (.answer step.inFrame pending s) := by
  have hopened := h (.close :: pending)
  refine hopened.concat rfl (Int.le_trans ?_ hopened.right_le)
  exact Int.ofNat_le.mpr (Context.depth_ascend_le _)

/-- Behind an error nothing is done but to close frames. -/
theorem Machine.resume_error {next : Pending} (h : next ≠ .close) (pending : List Pending)
    (t : State) (e : ExpansionError) :
    resume pending t next (.error e) = ⟨.done (.error e), pending, t⟩ := by
  cases next with
  | close => exact absurd rfl h
  | join _ _ | apply _ | stick _ | assign _ => rfl

/-- What is pending goes on with the text that a task gives, as the second of two steps does. -/
theorem Follows.andThen {next : String → Step String} {waiting : Pending}
    (h : Follows g bound task step s) (hwaiting : waiting ≠ .close) {pending : List Pending}
    (hnext : ∀ text t, step s = (.ok text, t) → (t.context.depth : Int) ≤ bound →
      Passes g bound (.resume pending t waiting (.ok text)) (.answer (next text) pending t)) :
    Passes g bound ⟨task, waiting :: pending, s⟩ (.answer (step.andThen next) pending s) := by
  have hrun := h (waiting :: pending)
  have hlast := hrun.right_le
  unfold Machine.answer Step.andThen at *
  cases hr : step s with
  | mk result t =>
      rw [hr] at hrun hlast
      cases result with
      | ok text =>
          have hrest := hnext text t hr hlast
          exact hrun.trans (.head hlast rfl hrest)
      | error e => exact hrun.concat (Machine.resume_error hwaiting pending t e) hlast

/-- A reference to a name gives the text that is bound to it, and otherwise what follows. -/
theorem follows_boundOr {name : String} (hs : (s.context.depth : Int) ≤ bound)
    (hbound : ∀ value pending, s.context.binding? name = some value →
      Machine.step g ⟨task, pending, s⟩ = ⟨.done (.ok value), pending, s⟩)
    (hstep : s.context.binding? name = none → Follows g bound task step s) :
    Follows g bound task (boundOr name step) s := by
  intro pending
  unfold Machine.answer boundOr
  cases hb : s.context.binding? name with
  | some value => exact .head hs (hbound value pending hb) (.refl hs)
  | none => exact hstep hb pending

end Follows

/-! ### Tokens -/

section Tokens

variable {expand : String → Step String} {s : State}

theorem state_applyCommand (command text : String) (s : State) :
    (applyCommand command text s).2 = s := by
  unfold applyCommand
  cases Command.ofName? command with
  | none => rfl
  | some c => rfl

theorem state_readBinding (name : String) (s : State) : (readBinding name s).2 = s := by
  unfold readBinding boundOr
  cases s.context.binding? name with
  | none => rfl
  | some value => rfl

/-- The machine binds a sticky name to what it expands for it. -/
theorem follows_sticky {name : String} (hs : (s.context.depth : Int) ≤ bound)
    (hrun : Follows g bound (.expand name) (expand name) s) :
    Follows g bound (.token (.sticky name)) (evaluateToken expand (.sticky name)) s := by
  apply follows_boundOr hs
  · intro value pending hb
    simp only [Machine.step, Machine.begin, hb]
  · intro hb pending
    have hfirst : Machine.step g ⟨.token (.sticky name), pending, s⟩ =
        ⟨.expand name, .stick name :: pending, s⟩ := by
      simp only [Machine.step, Machine.begin, hb]
    refine .head hs hfirst ?_
    apply hrun.andThen
    · simp
    · intro value t _ ht
      have hlast : ((t.bound name value (.stuck name value)).context.depth : Int) ≤ bound := by
        rwa [State.depth_bound]
      exact .refl hlast

/-- The machine binds a name to what it expands for it, and reads it again. -/
theorem follows_assignment {name rule : String} (hs : (s.context.depth : Int) ≤ bound)
    (hrun : Follows g bound (.expand rule) (expand rule) s) :
    Follows g bound (.token (.assignment name rule))
      (evaluateToken expand (.assignment name rule)) s := by
  intro pending
  unfold Machine.answer evaluateToken
  cases hb : s.context.isBound name with
  | true =>
      refine .head hs ?_ (.refl hs)
      simp only [Machine.step, Machine.begin, hb, if_true]
  | false =>
      have hfirst : Machine.step g ⟨.token (.assignment name rule), pending, s⟩ =
          ⟨.expand rule, .assign name :: pending, s⟩ := by
        simp only [Machine.step, Machine.begin, hb, Bool.false_eq_true, if_false]
      refine .head hs hfirst ?_
      rw [bindTo, Step.andThen_assoc]
      apply hrun.andThen
      · simp
      · intro value t _ ht
        have hbound :
            ((t.bound name value (.assigned name value)).context.depth : Int) ≤ bound := by
          rwa [State.depth_bound]
        have hlast : ((readBinding name (t.bound name value
            (.assigned name value))).2.context.depth : Int) ≤ bound := by
          rwa [state_readBinding]
        exact .head hbound rfl (.refl hlast)

/-- The machine evaluates a token, if it expands the cognates that the token requests. -/
theorem follows_evaluateToken {token : Token} (hs : (s.context.depth : Int) ≤ bound)
    (hexp : ∀ name ∈ token.requests, Follows g bound (.expand name) (expand name) s) :
    Follows g bound (.token token) (evaluateToken expand token) s := by
  induction token with
  | literal _ | range _ _ | stray _ => exact follows_of_step hs (fun _ => rfl) rfl
  | binding name =>
      exact follows_of_step hs (fun _ => rfl) (by rw [evaluateToken, state_readBinding])
  | nonTerminal name =>
      apply follows_boundOr hs
      · intro value pending hb
        simp only [Machine.step, Machine.begin, hb]
      · intro hb pending
        refine .head hs ?_ (hexp name (List.mem_singleton_self name) pending)
        simp only [Machine.step, Machine.begin, hb]
  | sticky name => exact follows_sticky hs (hexp name (List.mem_singleton_self name))
  | assignment name rule => exact follows_assignment hs (hexp rule (List.mem_singleton_self rule))
  | expression command inner ih =>
      intro pending
      refine .head hs rfl ?_
      apply (ih hexp).andThen
      · simp
      · intro text t _ ht
        have hlast : ((applyCommand command text t).2.context.depth : Int) ≤ bound := by
          rwa [state_applyCommand]
        exact .refl hlast

/-- The machine evaluates tokens from left to right, if it expands the cognates that they request
in every state with as many frames. -/
theorem follows_evaluateTokens {tokens : List Token} (before : String)
    (hs : (s.context.depth : Int) ≤ bound) (hscope : ∀ name, (expand name).Within Unwound)
    (hexp : ∀ t : State, t.context.depth = s.context.depth →
      ∀ name, Follows g bound (.expand name) (expand name) t) :
    Follows g bound (.tokens before tokens)
      ((evaluateTokens expand tokens).map (before ++ ·)) s := by
  induction tokens generalizing s before with
  | nil =>
      refine follows_of_step hs (fun pending => ?_) rfl
      simp [Machine.step, Machine.answer, evaluateTokens, Step.map, Step.pure]
  | cons token rest ih =>
      intro pending
      refine .head hs rfl ?_
      rw [evaluateTokens, Step.map_andThen]
      apply (follows_evaluateToken hs fun name _ => hexp s rfl name).andThen
      · simp
      · intro text t hr ht
        have hgrown : Grown s t := (scopeLaw.evaluateToken hscope token).of_eq hr
        have hrest := ih (before ++ text) ht fun u hu => hexp u (hu.trans hgrown.depth)
        rw [Step.map_map]
        simp only [← String.append_assoc]
        exact hrest pending

/-- Behind nothing the machine gives the text of the tokens. -/
theorem follows_tokens {tokens : List Token} (hs : (s.context.depth : Int) ≤ bound)
    (hscope : ∀ name, (expand name).Within Unwound)
    (hexp : ∀ t : State, t.context.depth = s.context.depth →
      ∀ name, Follows g bound (.expand name) (expand name) t) :
    Follows g bound (.tokens "" tokens) (evaluateTokens expand tokens) s := by
  have htokens : Follows g bound (.tokens "" tokens)
      ((evaluateTokens expand tokens).map ("" ++ ·)) s :=
    follows_evaluateTokens "" hs hscope hexp
  simpa only [String.empty_append, Step.map_id] using htokens

end Tokens

/-! ### Cognates and entry points -/

namespace Grammar

/-- A rule is selected, and its tokens are evaluated. -/
theorem follows_select (name : String) {s : State} (hs : (s.context.depth : Int) ≤ bound)
    (hexp : ∀ t : State, t.context.depth = s.context.depth →
      ∀ other, Follows g bound (.expand other) (g.generateWith other) t) :
    Follows g bound (.select name)
      ((g.select name).andThen fun rule => evaluateTokens g.generateWith rule.tokens) s := by
  intro pending
  unfold Machine.answer Step.andThen
  cases hr : g.select name s with
  | mk result t =>
      have hgrown : Grown s t := (scopeLaw.select g name).of_eq hr
      have ht : (t.context.depth : Int) ≤ bound := by rwa [hgrown.depth]
      cases result with
      | error e =>
          refine .head hs ?_ (.refl ht)
          simp only [Machine.step, hr]
      | ok rule =>
          have hfirst : Machine.step g ⟨.select name, pending, s⟩ =
              ⟨.tokens "" rule.tokens, pending, t⟩ := by
            simp only [Machine.step, hr]
          have hexp' (u : State) (hu : u.context.depth = t.context.depth) (other : String) :
              Follows g bound (.expand other) (g.generateWith other) u :=
            hexp u (hu.trans hgrown.depth) other
          exact .head hs hfirst (follows_tokens ht (scopeLaw.generateWith g) hexp' pending)

/-- At the limit a cognate is not expanded. -/
theorem follows_limit (name : String) {s : State} (hs : (s.context.depth : Int) ≤ bound)
    (hdepth : g.maxDepth ≤ s.context.depth) :
    Follows g bound (.expand name) (g.generateWith name) s := by
  intro pending
  unfold Machine.answer
  rw [generateWith_eq, if_pos hdepth]
  exact .head hs (if_pos hdepth) (.refl hs)

/-- The machine expands cognates. The induction is on the levels of nesting that are left, which
the machine does not know. -/
theorem follows_generateWith (hlimit : g.maxDepth ≤ bound) {levels : Nat} (name : String)
    {s : State} (hl : g.levels s.context = levels) (hs : (s.context.depth : Int) ≤ bound) :
    Follows g bound (.expand name) (g.generateWith name) s := by
  induction levels generalizing name s with
  | zero =>
      apply follows_limit name hs
      rw [Grammar.levels] at hl
      omega
  | succ levels ih =>
      rw [Grammar.levels] at hl
      have hdepth : ¬g.maxDepth ≤ s.context.depth := by omega
      have hopened : ((s.requested name).opened.context.depth : Int) ≤ bound := by
        change ((s.context.depth + 1 : Nat) : Int) ≤ bound
        omega
      have hselect := follows_select name hopened fun t ht other => by
        have htdepth : t.context.depth = s.context.depth + 1 := ht
        apply ih other
        · rw [Grammar.levels]
          omega
        · rw [ht]
          exact hopened
      intro pending
      have hrun := hselect.inFrame pending
      unfold Machine.answer at hrun ⊢
      rw [generateWith_eq, if_neg hdepth]
      exact .head hs (if_neg hdepth) hrun

theorem follows_evaluate (hlimit : g.maxDepth ≤ bound) (tokens : List Token) {s : State}
    (hs : (s.context.depth : Int) ≤ bound) :
    Follows g bound (.tokens "" tokens) (g.evaluate tokens) s := by
  have hevaluate : g.evaluate tokens s = evaluateTokens g.generateWith tokens s :=
    evaluateTokens_expandCognate rfl tokens
  intro pending
  unfold Machine.answer
  rw [hevaluate]
  refine follows_tokens hs (scopeLaw.generateWith g) (fun t ht name => ?_) pending
  exact follows_generateWith hlimit name rfl (by rwa [ht])

theorem follows_expandWith (hlimit : g.maxDepth ≤ bound) (literal : String) {s : State}
    (hs : (s.context.depth + 1 : Int) ≤ bound) :
    Follows g bound (.template literal) (g.expandWith literal) s := by
  have hs' : (s.context.depth : Int) ≤ bound := by omega
  intro pending
  unfold Machine.answer expandWith
  cases hrule : Rule.ofLiteral literal with
  | error e =>
      refine .head hs' ?_ (.refl hs')
      simp only [Machine.step, hrule, Step.fail]
  | ok rule =>
      have hfirst : Machine.step g ⟨.template literal, pending, s⟩ =
          ⟨.tokens "" rule.tokens, .close :: pending, s.opened⟩ := by
        simp only [Machine.step, hrule]
      have hopened : Follows g bound (.tokens "" rule.tokens) (g.evaluate rule.tokens) s.opened :=
        follows_evaluate hlimit rule.tokens hs
      exact .head hs' hfirst (hopened.inFrame pending)

end Grammar

/-! ### Failing at the limit -/

namespace Machine

/-- The machine has failed at the limit in the expansion of a cognate. -/
def FailsAtLimit (m : Machine) (name : String) (limit : Int) : Prop :=
  m.task = .done (.error (.recursionLimitExceeded name limit))

/-- A cognate is about to be expanded, and as many frames are open as the limit allows. -/
structure AtLimit (g : Grammar) (m : Machine) (name : String) (limit : Int) : Prop where
  task_eq : m.task = .expand name
  le_frames : g.maxDepth ≤ m.frames
  limit_eq : limit = g.maxDepth

variable {m : Machine} {name : String} {limit : Int}

/-- To begin with a token is not to fail at the limit. -/
theorem not_failsAtLimit_begin (pending : List Pending) (s : State) (token : Token) :
    ¬(begin pending s token).FailsAtLimit name limit := by
  intro h
  cases token with
  | literal _ | range _ _ | expression _ _ | stray _ => cases h
  | nonTerminal n | sticky n =>
      simp only [begin] at h
      split at h <;> cases h
  | binding n =>
      simp only [begin, FailsAtLimit, answer, readBinding, boundOr, Step.fail] at h
      split at h <;> cases h
  | assignment n rule =>
      simp only [begin] at h
      split at h <;> cases h

/-- What is pending hands an error on, and makes none at the limit. -/
theorem failsAtLimit_of_resume {pending : List Pending} {s : State} {waiting : Pending}
    {result : Except ExpansionError String}
    (h : (resume pending s waiting result).FailsAtLimit name limit) :
    result = .error (.recursionLimitExceeded name limit) := by
  cases result with
  | error e =>
      have herror : Task.done (.error e) = .done (.error (.recursionLimitExceeded name limit)) := by
        cases waiting with
        | join _ _ | apply _ | stick _ | assign _ | close => exact h
      exact Task.done.inj herror
  | ok text =>
      cases waiting with
      | join _ _ | stick _ | assign _ | close => cases h
      | apply command =>
          rw [resume, FailsAtLimit, answer, applyCommand] at h
          cases hc : Command.ofName? command with
          | none => rw [hc] at h; cases h
          | some c => rw [hc] at h; cases h

/-- A step fails at the limit only where it hands on that it did, or where a cognate is to be
expanded at the limit. -/
theorem failsAtLimit_step (h : (m.step g).FailsAtLimit name limit) :
    m.FailsAtLimit name limit ∨ m.AtLimit g name limit := by
  obtain ⟨task, pending, s⟩ := m
  cases task with
  | template literal =>
      simp only [step] at h
      split at h <;> cases h
  | expand n =>
      simp only [step] at h
      split at h
      · rename_i hdepth
        cases h
        exact Or.inr ⟨rfl, hdepth, rfl⟩
      · cases h
  | select n =>
      simp only [step] at h
      split at h
      · cases h
      · rename_i e t hr
        obtain rfl := Except.error.inj (Task.done.inj h)
        have hselect : (g.select n s).1 = .error (.recursionLimitExceeded name limit) :=
          congrArg Prod.fst hr
        rcases Grammar.error_of_select hselect with he | he | he <;> cases he
  | tokens before rest => cases rest <;> cases h
  | token token => exact absurd h (not_failsAtLimit_begin pending s token)
  | done result =>
      cases pending with
      | nil => exact Or.inl h
      | cons waiting pending => exact Or.inl (congrArg Task.done (failsAtLimit_of_resume h))

/-- A run that fails at the limit came to where a cognate was to be expanded there. -/
theorem exists_atLimit {i : Nat} (hm : ¬m.FailsAtLimit name limit)
    (h : ((step g)^[i] m).FailsAtLimit name limit) :
    ∃ j < i, ((step g)^[j] m).AtLimit g name limit := by
  induction i with
  | zero => exact absurd h hm
  | succ i ih =>
      rw [Function.iterate_succ_apply'] at h
      rcases failsAtLimit_step h with hfails | hat
      · obtain ⟨j, hj, hat⟩ := ih hfails
        exact ⟨j, Nat.lt_succ_of_lt hj, hat⟩
      · exact ⟨i, Nat.lt_succ_self i, hat⟩

end Machine

/-! ### Runs to the end -/

open Machine in
theorem Passes.exists_iterate {m last : Machine} (h : Passes g bound m last) :
    ∃ n, (step g)^[n] m = last ∧ ∀ i ≤ n, ((step g)^[i] m).frames ≤ bound := by
  induction h with
  | refl h =>
      refine ⟨0, rfl, fun i hi => ?_⟩
      obtain rfl := Nat.le_zero.mp hi
      exact h
  | @head m next last hm step_eq _ ih =>
      subst step_eq
      obtain ⟨n, hlast, hle⟩ := ih
      refine ⟨n + 1, hlast, fun i hi => ?_⟩
      cases i with
      | zero => exact hm
      | succ i => exact hle i (Nat.le_of_succ_le_succ hi)

/-- The machine comes to a halt with the answer and the state of a run. At every moment no more
frames are open than the bound, and it fails at the limit only behind the request of a cognate
with at least as many frames open as the limit is. -/
structure Machine.Finishes (g : Grammar) (bound : Int) (m : Machine)
    (run : Except ExpansionError String × State) : Prop where
  halts : ∃ n, (step g)^[n] m = ⟨.done run.1, [], run.2⟩
  frames_le : ∀ i, ((step g)^[i] m).frames ≤ bound
  atLimit : ∀ i name limit, ((step g)^[i] m).FailsAtLimit name limit →
    ∃ j < i, ((step g)^[j] m).AtLimit g name limit

open Machine in
theorem Machine.Finishes.of_follows {task : Task} {step : Step String} {s : State}
    (h : Follows g bound task step s) (htask : ∀ result, task ≠ .done result) :
    Finishes g bound ⟨task, [], s⟩ (step s) := by
  obtain ⟨n, hlast, hle⟩ := (h []).exists_iterate
  refine ⟨⟨n, hlast⟩, fun i => ?_, fun i name limit => exists_atLimit (htask _)⟩
  rcases Nat.le_total i n with hi | hi
  · exact hle i hi
  · -- Behind the last step the machine stays as it is.
    obtain ⟨k, rfl⟩ := Nat.exists_eq_add_of_le' hi
    rw [Function.iterate_add_apply, hlast, Function.iterate_fixed rfl, ← hlast]
    exact hle n (Nat.le_refl n)

/-- Every expansion ends, whatever cognates request each other and whatever the limit is: the
machine, which does not know how many levels are left, comes to a halt with just its answer and
its state. At every moment at most as many frames are open as at first or as the limit allows,
where a template opens one before the limit is looked at, and nothing fails at the limit but what
was requested there. -/
theorem Grammar.finishes (g : Grammar) (s : State) :
    let depth : Int := s.context.depth
    (∀ name, Machine.Finishes g (max depth g.maxDepth) ⟨.expand name, [], s⟩
        (g.generateWith name s)) ∧
      (∀ tokens, Machine.Finishes g (max depth g.maxDepth) ⟨.tokens "" tokens, [], s⟩
        (g.evaluate tokens s)) ∧
      ∀ literal, Machine.Finishes g (max (depth + 1) g.maxDepth) ⟨.template literal, [], s⟩
        (g.expandWith literal s) := by
  intro depth
  have hdepth : depth ≤ max depth g.maxDepth := Int.le_max_left _ _
  have hopened : depth + 1 ≤ max (depth + 1) g.maxDepth := Int.le_max_left _ _
  refine ⟨fun name => ?_, fun tokens => ?_, fun literal => ?_⟩
  · exact .of_follows (follows_generateWith (Int.le_max_right _ _) name rfl hdepth) (by simp)
  · exact .of_follows (follows_evaluate (Int.le_max_right _ _) tokens hdepth) (by simp)
  · exact .of_follows (follows_expandWith (Int.le_max_right _ _) literal hopened) (by simp)

open Machine in
/-- A tail that always has another tail behind it comes to its end at the limit. -/
example :
    let tail : Cognate := ⟨"tail", [⟨[⟨"<tail>", [.nonTerminal "tail"]⟩], ∅, ""⟩]⟩
    let g : Grammar := .ofCognates [tail] 2
    ((step g)^[13] ⟨.expand "tail", [], .start .empty (.ofArray #[])⟩).FailsAtLimit "tail" 2 :=
  rfl

end TaggedGrammar
