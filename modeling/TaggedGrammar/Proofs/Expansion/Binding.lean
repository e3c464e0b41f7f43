import TaggedGrammar.Proofs.Expansion.Resolution
import TaggedGrammar.Proofs.Expansion.Safety

/-!
# What an evaluation binds

An evaluation opens no frame of its own, so what its tokens bind is there when it ends, whether it
gives a text or fails. On the way the expansions of cognates bind names as well, perhaps the same
ones, but these are gone when the expansions end. There remain the names that the tokens before the
failure bind themselves, each once, in the order of their first occurrence, and only those that
were unbound at first. Each is bound to the text of the expansion, whatever commands stand around
it.

## Main statements

* `adds_evaluateToken`, `adds_evaluateToken_error`: what one token binds, and that nothing is bound
  by one that fails.
* `newNames_cons_of_isBound`, `newNames_cons_of_unbound`: the names of one token more.
* `exists_adds_evaluateTokens`: what a list of tokens binds.
* `Grammar.adds_evaluate`: the same for the entry point, from any context.
-/

namespace TaggedGrammar

/-! ### Tokens that bind -/

/-- The name that a token binds where it is unbound, with the cognate whose expansion it binds to
it. A command binds what its inner token does. -/
def Token.bindsTo? : Token → Option (String × String)
  | sticky name => some (name, name)
  | assignment name rule => some (name, rule)
  | expression _ inner => inner.bindsTo?
  | literal _ | nonTerminal _ | binding _ | range _ _ | stray _ => none

/-- The name that a token binds where it is unbound. -/
def Token.boundName? (token : Token) : Option String := token.bindsTo?.map Prod.fst

/-- The tokens that are evaluated before the first one that fails. -/
def completed (expand : String → Step String) : List Token → State → List Token
  | [], _ => []
  | token :: rest, s =>
    match evaluateToken expand token s with
    | (.ok _, t) => token :: completed expand rest t
    | (.error _, _) => []

/-- The names that tokens bind in a context, each once, in the order of their first occurrence. -/
def Context.newNames (ctx : Context) (tokens : List Token) : List String :=
  ((tokens.filterMap Token.boundName?).filter fun name => !ctx.isBound name).eraseDups

/-- The entries stand behind the bindings from before, and their names in the innermost frame, if
there is one; the bindings from before and the other frames are as they were. -/
structure Adds (added : List (String × String)) (s t : State) : Prop where
  bindings : t.context.bindings.entries = s.context.bindings.entries ++ added
  frames : t.context.frames = Context.record (added.map Prod.fst) s.context.frames

/-- The first of the tokens that may bind a name binds it to the text of the expansion of its
cognate, in the state behind the tokens before it. -/
inductive FirstBinds (expand : String → Step String) :
    List Token → State → String → String → Prop where
  | here {token : Token} {rest : List Token} {name rule value : String} {s u : State}
      (binds : token.bindsTo? = some (name, rule)) (expansion : expand rule s = (.ok value, u)) :
      FirstBinds expand (token :: rest) s name value
  | later {token : Token} {rest : List Token} {name text value : String} {s t : State}
      (other : token.boundName? ≠ some name) (run : evaluateToken expand token s = (.ok text, t))
      (binds : FirstBinds expand rest t name value) :
      FirstBinds expand (token :: rest) s name value

/-! ### What is added -/

variable {s t u : State}

theorem adds_nil (hb : t.context.bindings = s.context.bindings)
    (hf : t.context.frames = s.context.frames) : Adds [] s t :=
  ⟨by rw [hb, List.append_nil], by rw [hf, List.map_nil, Context.record_nil]⟩

theorem Unwound.adds (h : Unwound s t) : Adds [] s t := adds_nil h.bindings h.frames

theorem Adds.trans {added more : List (String × String)} (h : Adds added s t)
    (h' : Adds more t u) : Adds (added ++ more) s u where
  bindings := by rw [h'.bindings, h.bindings, List.append_assoc]
  frames := by rw [h'.frames, h.frames, List.map_append, Context.record_append]

theorem Adds.isBound_eq {added : List (String × String)} (h : Adds added s t) (name : String) :
    t.context.isBound name = (s.context.isBound name || decide (name ∈ added.map Prod.fst)) := by
  have hkeys : t.context.bindings.keys = s.context.bindings.keys ++ added.map Prod.fst := by
    rw [Table.keys, h.bindings, List.map_append]
    rfl
  rw [Context.isBound, Context.isBound, Bool.eq_iff_iff, Bool.or_eq_true, decide_eq_true_iff,
    Table.contains_iff_mem, Table.contains_iff_mem, hkeys, List.mem_append]

/-! ### One token -/

section Tokens

variable {expand : String → Step String} (hexp : ∀ name, (expand name).Within Unwound)
include hexp

/-- A token that gives a text binds its name to the expansion if the name is unbound, and
otherwise binds nothing. -/
theorem adds_evaluateToken {token : Token} {text : String}
    (h : evaluateToken expand token s = (.ok text, t)) :
    (∃ name rule value u, token.bindsTo? = some (name, rule) ∧
      s.context.isBound name = false ∧ expand rule s = (.ok value, u) ∧
        Adds [(name, value)] s t) ∨
    ((∀ name, token.boundName? = some name → s.context.isBound name = true) ∧ Adds [] s t) := by
  induction token generalizing text t with
  | literal _ =>
      cases h
      exact Or.inr ⟨nofun, adds_nil rfl rfl⟩
  | nonTerminal name =>
      refine Or.inr ⟨nofun, ?_⟩
      rcases boundOr_eq_ok_iff.mp h with ⟨-, rfl⟩ | ⟨-, hrun⟩
      · exact adds_nil rfl rfl
      · exact ((hexp name).of_eq hrun).adds
  | sticky name =>
      rcases boundOr_eq_ok_iff.mp h with ⟨hbound, rfl⟩ | ⟨hn, hbind⟩
      · refine Or.inr ⟨fun n hm => ?_, adds_nil rfl rfl⟩
        obtain rfl := Option.some.inj hm
        exact isBound_of_binding? hbound
      · obtain ⟨u, hrun, rfl⟩ := bindTo_eq_ok_iff.mp hbind
        have hunwound := (hexp name).of_eq hrun
        exact Or.inl ⟨name, name, text, u, rfl, hn, hrun, hunwound.entries_bound hn _ _,
          hunwound.frames_bound _ _ _⟩
  | binding name =>
      obtain ⟨-, rfl⟩ := readBinding_eq_ok_iff.mp h
      exact Or.inr ⟨nofun, adds_nil rfl rfl⟩
  | range lower upper =>
      cases h
      exact Or.inr ⟨nofun, adds_nil rfl rfl⟩
  | assignment name rule =>
      rcases assignment_eq_ok_iff.mp h with ⟨hbound, -, rfl⟩ | ⟨hn, u, hrun, rfl⟩
      · refine Or.inr ⟨fun n hm => ?_, adds_nil rfl rfl⟩
        obtain rfl := Option.some.inj hm
        exact hbound
      · have hunwound := (hexp rule).of_eq hrun
        exact Or.inl ⟨name, rule, text, u, rfl, hn, hrun, hunwound.entries_bound hn _ _,
          hunwound.frames_bound _ _ _⟩
  | expression command inner ih =>
      obtain ⟨value, u, hinner, hcommand⟩ := Step.andThen_eq_ok_iff.mp h
      obtain ⟨c, -, -, rfl⟩ := applyCommand_eq_ok_iff.mp hcommand
      exact ih hinner
  | stray value => cases h

/-- A regular token that fails binds nothing, since no command fails behind a binding. -/
theorem adds_evaluateToken_error {token : Token} (hregular : token.Regular) {e : ExpansionError}
    (h : evaluateToken expand token s = (.error e, t)) : Adds [] s t := by
  induction token generalizing e t with
  | literal _ => cases h
  | nonTerminal name => exact ((hexp name).of_eq (boundOr_eq_error h)).adds
  | sticky name =>
      exact ((hexp name).of_eq (bindTo_eq_error (boundOr_eq_error h))).adds
  | binding name =>
      cases boundOr_eq_error h
      exact adds_nil rfl rfl
  | range lower upper => cases h
  | assignment name rule => exact ((hexp rule).of_eq (assignment_eq_error h)).adds
  | expression command inner ih =>
      obtain ⟨⟨c, hc⟩, hinner⟩ := hregular
      rcases Step.andThen_eq_error h with hrun | ⟨text, u, -, hcommand⟩
      · exact ih hinner hrun
      · rw [applyCommand_eq_ok_iff.mpr ⟨c, hc, rfl, rfl⟩] at hcommand
        cases hcommand
  | stray value => exact hregular.elim

end Tokens

/-! ### The names of one token more -/

section Names

variable {ctx ctx' : Context} {token : Token} {rest : List Token}

theorem isBound_of_mem_newNames {tokens : List Token} {name : String}
    (h : name ∈ ctx.newNames tokens) : ctx.isBound name = false := by
  have hfilter := (List.mem_filter.mp (List.mem_eraseDups.mp h)).2
  simpa using hfilter

/-- A token that binds nothing new does not count. -/
theorem newNames_cons_of_isBound
    (h : ∀ name, token.boundName? = some name → ctx.isBound name = true)
    (hsame : ∀ name, ctx'.isBound name = ctx.isBound name) :
    ctx.newNames (token :: rest) = ctx'.newNames rest := by
  have hfilter : (fun name => !ctx'.isBound name) = fun name => !ctx.isBound name :=
    funext fun name => congrArg _ (hsame name)
  rw [Context.newNames, Context.newNames, hfilter]
  cases hname : token.boundName? with
  | none => rw [List.filterMap_cons_none hname]
  | some name =>
      rw [List.filterMap_cons_some hname, List.filter_cons_of_neg]
      simp [h name hname]

/-- A token that binds a new name comes first, and its name does not count again. -/
theorem newNames_cons_of_unbound {name : String} (hname : token.boundName? = some name)
    (hn : ctx.isBound name = false)
    (hmore : ∀ n, ctx'.isBound n = (ctx.isBound n || decide (n = name))) :
    ctx.newNames (token :: rest) = name :: ctx'.newNames rest := by
  rw [Context.newNames, List.filterMap_cons_some hname, List.filter_cons_of_pos (by simp [hn]),
    List.eraseDups_cons, List.filter_filter, Context.newNames]
  congr 3
  funext n
  rw [hmore, Bool.not_or, Bool.and_comm, beq_eq_decide]

end Names

/-! ### Lists of tokens -/

section Evaluation

variable {expand : String → Step String} (hexp : ∀ name, (expand name).Within Unwound)
include hexp

/-- An entry that is added behind a token has another name than the token, if that has one. -/
theorem FirstBinds.behind {token : Token} {rest : List Token} {text name value : String}
    (run : evaluateToken expand token s = (.ok text, t)) (hn : t.context.isBound name = false)
    (h : FirstBinds expand rest t name value) :
    FirstBinds expand (token :: rest) s name value := by
  refine .later ?_ run h
  intro hname
  rcases adds_evaluateToken hexp run with ⟨bound, rule, v, u, hbinds, -, -, hadds⟩ | ⟨hold, hadds⟩
  · rw [Token.boundName?, hbinds] at hname
    obtain rfl : bound = name := Option.some.inj hname
    rw [hadds.isBound_eq] at hn
    simp at hn
  · rw [hadds.isBound_eq, hold name hname] at hn
    cases hn

/-- What regular tokens bind: the new names of those before the failure, each to the text of the
first expansion that is bound to it. -/
theorem exists_adds_evaluateTokens {tokens : List Token} (h : ∀ token ∈ tokens, token.Regular)
    (s : State) :
    ∃ added : List (String × String),
      added.map Prod.fst = s.context.newNames (completed expand tokens s) ∧
      Adds added s (evaluateTokens expand tokens s).2 ∧
      ∀ e ∈ added, FirstBinds expand (completed expand tokens s) s e.1 e.2 := by
  induction tokens generalizing s with
  | nil => exact ⟨[], rfl, adds_nil rfl rfl, nofun⟩
  | cons token rest ih =>
      obtain ⟨htoken, hrest⟩ := List.forall_mem_cons.mp h
      cases hrun : evaluateToken expand token s with
      | mk result t =>
          cases result with
          | error e =>
              have hstate : (evaluateTokens expand (token :: rest) s).2 = t := by
                rw [evaluateTokens, Step.andThen, hrun]
              rw [completed, hrun, hstate]
              exact ⟨[], rfl, adds_evaluateToken_error hexp htoken hrun, nofun⟩
          | ok text =>
              obtain ⟨more, hnames, hmore, hfirst⟩ := ih hrest t
              have hstate : (evaluateTokens expand (token :: rest) s).2 =
                  (evaluateTokens expand rest t).2 := by
                rw [evaluateTokens, Step.andThen_of_eq hrun, Step.state_map]
              rw [completed, hrun, hstate]
              have hbehind : ∀ e ∈ more,
                  FirstBinds expand (token :: completed expand rest t) s e.1 e.2 := by
                intro e he
                have hname : e.1 ∈ t.context.newNames (completed expand rest t) :=
                  hnames ▸ List.mem_map_of_mem he
                exact (hfirst e he).behind hexp hrun (isBound_of_mem_newNames hname)
              rcases adds_evaluateToken hexp hrun with
                ⟨name, rule, value, u, hbinds, hn, hexpand, hadds⟩ | ⟨hold, hadds⟩
              · have hname : token.boundName? = some name := congrArg (Option.map Prod.fst) hbinds
                have hbound (n : String) :
                    t.context.isBound n = (s.context.isBound n || decide (n = name)) := by
                  rw [hadds.isBound_eq]
                  simp
                refine ⟨(name, value) :: more, ?_, hadds.trans hmore, ?_⟩
                · rw [newNames_cons_of_unbound hname hn hbound, List.map_cons, hnames]
                · exact List.forall_mem_cons.mpr ⟨.here hbinds hexpand, hbehind⟩
              · have hbound (n : String) : t.context.isBound n = s.context.isBound n := by
                  rw [hadds.isBound_eq]
                  simp
                refine ⟨more, ?_, hadds.trans hmore, hbehind⟩
                rw [newNames_cons_of_isBound hold hbound, hnames]

end Evaluation

/-- The tokens that are evaluated before a failure are the first ones, and all of them if there is
no failure. -/
theorem completed_prefix (expand : String → Step String) (tokens : List Token) (s : State) :
    completed expand tokens s <+: tokens ∧
      ((∃ text, (evaluateTokens expand tokens s).1 = .ok text) ↔
        completed expand tokens s = tokens) := by
  have hfailed (e : ExpansionError) :
      ¬∃ text : String, (Except.error e : Except ExpansionError String) = .ok text := by
    rintro ⟨text, h⟩
    cases h
  induction tokens generalizing s with
  | nil => exact ⟨List.prefix_rfl, fun _ => rfl, fun _ => ⟨"", rfl⟩⟩
  | cons token rest ih =>
      cases hrun : evaluateToken expand token s with
      | mk result t =>
          cases result with
          | error e =>
              rw [completed, evaluateTokens, Step.andThen, hrun]
              exact ⟨List.nil_prefix, iff_of_false (hfailed e) (List.cons_ne_nil token rest).symm⟩
          | ok text =>
              obtain ⟨hbefore, hok⟩ := ih t
              rw [completed, hrun, evaluateTokens, Step.andThen_of_eq hrun, Step.result_map]
              refine ⟨(List.prefix_cons_inj token).mpr hbefore, ?_⟩
              rw [List.cons.injEq, and_iff_right rfl, ← hok]
              cases (evaluateTokens expand rest t).1 with
              | ok more => exact iff_of_true ⟨_, rfl⟩ ⟨_, rfl⟩
              | error e => exact iff_of_false (hfailed e) (hfailed e)

/-- An evaluation adds one binding for each name that a token before the failure binds and that
was unbound at first, in the order of their first occurrence, and records the names in the frame
that is open; bindings from before and other frames stay as they are. Each name is bound to the text
that its cognate expands to at the first token that binds it, before any command is applied. The
tokens are regular if they are those of a template (`Template.regular_of_parse`). -/
theorem Grammar.adds_evaluate (g : Grammar) (s : State) {tokens : List Token}
    (h : ∀ token ∈ tokens, token.Regular) :
    let done := completed g.generateWith tokens s
    done <+: tokens ∧ ((∃ text, (g.evaluate tokens s).1 = .ok text) ↔ done = tokens) ∧
      ∃ added : List (String × String), added.map Prod.fst = s.context.newNames done ∧
        Adds added s (g.evaluate tokens s).2 ∧
        ∀ e ∈ added, FirstBinds g.generateWith done s e.1 e.2 := by
  intro done
  have hevaluate : g.evaluate tokens s = evaluateTokens g.generateWith tokens s :=
    evaluateTokens_expandCognate rfl tokens
  rw [hevaluate]
  obtain ⟨hbefore, hok⟩ := completed_prefix g.generateWith tokens s
  exact ⟨hbefore, hok, exists_adds_evaluateTokens (scopeLaw.generateWith g) h s⟩

/-- A beast that is named with a capital, one for the guest, who has a name already, and one for
the pet; then a name that nobody has, so that the last beast is not come to. -/
def visit : List Token :=
  [.expression "capitalize" (.sticky "beast"), .assignment "guest" "beast",
    .assignment "pet" "beast", .sticky "beast", .binding "nobody", .sticky "tale"]

/-- The visit binds the beast, in small letters, and the pet. -/
theorem adds_evaluate_visit :
    let s : State := .start ⟨∅, Table.insert ∅ "guest" "Ann", [["guest"], []]⟩ (.ofArray #[1])
    let t := (farm.evaluate visit s).2
    (∀ token ∈ visit, token.Regular) ∧
      (farm.evaluate visit s).1 = .error (.unboundVariable "nobody") ∧
      completed farm.generateWith visit s = visit.take 4 ∧
      t.context.bindings.entries = [("guest", "Ann"), ("beast", "hen"), ("pet", "hen")] ∧
      ∃ added : List (String × String), added.map Prod.fst = ["beast", "pet"] ∧ Adds added s t ∧
        ∀ e ∈ added, FirstBinds farm.generateWith (visit.take 4) s e.1 e.2 := by
  intro s t
  have hregular : ∀ token ∈ visit, token.Regular := by
    simp only [visit, List.forall_mem_cons, List.not_mem_nil, false_implies, implies_true,
      Token.Regular, and_true]
    exact ⟨.capitalize, rfl⟩
  have hnames : s.context.newNames (visit.take 4) = ["beast", "pet"] := by decide
  obtain ⟨-, -, added, hadded, hadds⟩ := farm.adds_evaluate s hregular
  exact ⟨hregular, rfl, rfl, rfl, added, hadded.trans hnames, hadds⟩

end TaggedGrammar
