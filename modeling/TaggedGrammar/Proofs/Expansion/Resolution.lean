import TaggedGrammar.Proofs.Expansion.Comparison
import TaggedGrammar.Proofs.Expansion.Depth
import TaggedGrammar.Proofs.Grammar.Parsed

/-!
# Bindings as substitutions

A name that is bound to a text stands for that text wherever a token refers to it. Resolving a
name in a grammar puts the text itself there, and the empty text in the place of an assignment,
which does nothing where its name is bound. Under a binding of the name the grammar and the
resolved grammar expand alike: they answer with the same text or the same error and leave the
same context and the same draws, since the binding is in force in every frame that is opened
while it is, and no token binds the name again.

## Main statements

* `underBinding_law`: two runs with the same context, in which a name is bound to a text.
* `underBinding_resolve`: a token and the resolved token have such runs.
* `Grammar.underBinding_resolve`: so do a grammar and the resolved grammar.
* `Grammar.Visits.binding?`: a binding is in force at every token that an evaluation comes to.
* `Grammar.sameOutcome_resolve`: bindings act as substitutions.

## Implementation notes

The two grammars select rules with different tokens, which is also what their records say, so
states are compared without the record of events.
-/

namespace TaggedGrammar

/-! ### Resolving a name -/

/-- The token in which what refers to a name is the text that the name is bound to. -/
def Token.resolve (name value : String) : Token → Token
  | nonTerminal n => if n = name then literal value else nonTerminal n
  | sticky n => if n = name then literal value else sticky n
  | binding n => if n = name then literal value else binding n
  | assignment n rule => if n = name then literal "" else assignment n rule
  | expression command inner => expression command (inner.resolve name value)
  | literal text => literal text
  | range lower upper => range lower upper
  | stray text => stray text

/-- The rule with a name resolved in all of its tokens. -/
def Rule.resolve (name value : String) (r : Rule) : Rule :=
  { r with tokens := r.tokens.map (Token.resolve name value) }

/-- The group with a name resolved in all of its rules. -/
def Group.resolve (name value : String) (g : Group) : Group :=
  { g with rules := g.rules.map (Rule.resolve name value) }

/-- The cognate with a name resolved in all of its groups. -/
def Cognate.resolve (name value : String) (c : Cognate) : Cognate :=
  { c with groups := c.groups.map (Group.resolve name value) }

/-- The grammar with a name resolved in all of its rules. -/
def Grammar.resolve (name value : String) (g : Grammar) : Grammar :=
  { g with cognates := g.cognates.mapValues (Cognate.resolve name value) }

section Resolve

variable {name value : String}

theorem Grammar.get?_resolve (g : Grammar) (n : String) :
    (g.resolve name value).get? n = (g.get? n).map (Cognate.resolve name value) :=
  Table.get?_mapValues g.cognates _ n

theorem suitable_resolve (ctx : Context) (c : Cognate) :
    Grammar.suitable ctx (c.resolve name value) =
      (Grammar.suitable ctx c).map (Group.resolve name value) :=
  List.filter_map ..

theorem ruleTotal_resolve (gs : List Group) :
    ruleTotal (gs.map (Group.resolve name value)) = ruleTotal gs := by
  induction gs with
  | nil => rfl
  | cons g gs ih => simp [ruleTotal, ih, Group.resolve]

theorem ruleAt_resolve {gs : List Group} {i : Nat} (h : i < ruleTotal gs)
    (h' : i < ruleTotal (gs.map (Group.resolve name value))) :
    ruleAt (gs.map (Group.resolve name value)) i h' =
      ((ruleAt gs i h).1.resolve name value, (ruleAt gs i h).2.resolve name value) := by
  induction gs generalizing i with
  | nil => exact absurd h (Nat.not_lt_zero _)
  | cons g gs ih =>
      have hlength : (g.resolve name value).rules.length = g.rules.length := by
        simp [Group.resolve]
      simp only [List.map_cons, ruleAt, hlength]
      split
      · simp [Group.resolve]
      · exact ih _ _

end Resolve

/-! ### Runs that are alike -/

/-- The two states differ at most in the record of what happened. -/
structure State.Alike (s t : State) : Prop where
  context : t.context = s.context
  chance : t.chance = s.chance

/-- Two runs end with the same text or the same error, and leave the same context and the same
draws. -/
structure SameOutcome {α : Type} (r r' : Except ExpansionError α × State) : Prop where
  result : r'.1 = r.1
  state : r.2.Alike r'.2

variable {s s' : State}

/-! ### References to a name that is bound -/

section Bound

variable {name value : String}

/-- A binding stays where bindings are only added. -/
theorem Grown.binding? {t : State} (h : Grown s t)
    (hb : s.context.binding? name = some value) : t.context.binding? name = some value := by
  obtain ⟨added, he, -⟩ := h.added
  exact Table.get?_of_extends ⟨added, he.symm⟩ hb

theorem isBound_of_binding? {ctx : Context} (h : ctx.binding? name = some value) :
    ctx.isBound name = true := by
  cases hb : ctx.isBound name with
  | true => rfl
  | false =>
      rw [Context.isBound_eq_false_iff.mp hb] at h
      cases h

theorem boundOr_of_binding? (step : Step String) (h : s.context.binding? name = some value) :
    boundOr name step s = (.ok value, s) := by
  rw [boundOr, h]

/-- The references to a name. -/
def Token.RefersTo (name : String) (token : Token) : Prop :=
  token = .nonTerminal name ∨ token = .sticky name ∨ token = .binding name

/-- A reference to a name that is bound gives its text and does nothing else. -/
theorem Token.RefersTo.evaluateToken {token : Token} (ht : token.RefersTo name)
    (h : s.context.binding? name = some value) (expand : String → Step String) :
    evaluateToken expand token s = (.ok value, s) := by
  rcases ht with rfl | rfl | rfl
  · exact boundOr_of_binding? _ h
  · exact boundOr_of_binding? _ h
  · exact boundOr_of_binding? _ h

theorem evaluateToken_assignment_of_bound (h : s.context.binding? name = some value)
    (expand : String → Step String) (rule : String) :
    evaluateToken expand (.assignment name rule) s = (.ok "", s) :=
  if_pos (isBound_of_binding? h)

end Bound

/-! ### The law -/

section Law

variable {name value : String}

/-- Two runs have the same context, in which the name is bound to the text, and the same draws. -/
def underBinding (name value : String) : Comparison where
  states s s' := s.Alike s' ∧ s.context.binding? name = some value
  errors e e' := e' = e
  waives _ := False

theorem underBinding_law (name value : String) : (underBinding name value).Law Set.univ where
  binding?_eq h n _ := congrArg (Context.binding? · n) h.1.context
  chance_eq h := h.1.chance
  errors_self _ _ := rfl
  draw lower upper h :=
    ⟨⟨h.1.context, congrArg (Chance.draw · lower upper) h.1.chance⟩, h.2⟩
  -- A name that is bound now was unbound, so it is another one.
  bind {s s' n} text event h hn := by
    refine ⟨⟨congrArg (Context.bind · n text) h.1.context, h.1.chance⟩, ?_⟩
    have hne : name ≠ n := by
      rintro rfl
      rw [isBound_of_binding? h.2] at hn
      cases hn
    exact (Table.get?_insert_of_ne hne).trans h.2
  request n h := ⟨⟨h.1.context, h.1.chance⟩, h.2⟩
  opened h := ⟨⟨congrArg Context.descend h.1.context, h.1.chance⟩, h.2⟩
  closed {s s' t t'} h ht hclosed _ := by
    refine ⟨⟨congrArg Context.ascend ht.1.context, ht.1.chance⟩, ?_⟩
    rw [Context.binding?, hclosed.bindings]
    exact h.2

theorem sameOutcome_of_ends {α : Type} {r r' : Except ExpansionError α × State}
    (h : (underBinding name value).Ends Eq r r') : SameOutcome r r' := by
  cases h with
  | ok ha ht =>
      obtain rfl := ha
      exact ⟨rfl, ht.1⟩
  | error he ht =>
      obtain rfl := he
      exact ⟨rfl, ht.1⟩
  | waived he => exact he.elim

/-- A token and the resolved token are alike where the name is bound. -/
theorem underBinding_resolve {expand expand' : String → Step String}
    (hexp : (underBinding name value).Expands expand expand') (token : Token) :
    (underBinding name value).Steps Eq (evaluateToken expand token)
      (evaluateToken expand' (token.resolve name value)) := by
  have hlaw := underBinding_law name value
  have hother (token : Token) : (underBinding name value).Steps Eq (evaluateToken expand token)
      (evaluateToken expand' token) := hlaw.evaluateToken hexp fun n _ => Set.mem_univ n
  have hreference {token : Token} (ht : token.RefersTo name) :
      (underBinding name value).Steps Eq (evaluateToken expand token)
        (evaluateToken expand' (.literal value)) := by
    intro s s' hs
    rw [ht.evaluateToken hs.2]
    exact .ok rfl hs
  induction token with
  | literal _ | range _ _ | stray _ => exact hother _
  | nonTerminal n =>
      rw [Token.resolve]
      split
      · rename_i hn
        exact hreference (Or.inl (congrArg _ hn))
      · exact hother _
  | sticky n =>
      rw [Token.resolve]
      split
      · rename_i hn
        exact hreference (Or.inr (Or.inl (congrArg _ hn)))
      · exact hother _
  | binding n =>
      rw [Token.resolve]
      split
      · rename_i hn
        exact hreference (Or.inr (Or.inr (congrArg _ hn)))
      · exact hother _
  | assignment n rule =>
      rw [Token.resolve]
      split
      · rename_i hn
        intro s s' hs
        rw [hn, evaluateToken_assignment_of_bound hs.2]
        exact .ok rfl hs
      · exact hother _
  | expression command inner ih =>
      apply ih.andThen
      rintro text _ rfl
      exact hlaw.applyCommand command text

theorem tokens_resolve (tokens : List Token) :
    (underBinding name value).Tokens tokens (tokens.map (Token.resolve name value)) := by
  intro expand expand' hexp
  apply Comparison.Steps.evaluateTokens
  rw [List.forall₂_map_right_iff, List.forall₂_same]
  exact fun token _ => underBinding_resolve hexp token

end Law

/-! ### Cognates -/

namespace Grammar

variable {name value : String}

/-- Which rule is selected does not depend on tokens. -/
theorem underBinding_select (g : Grammar) (n : String) :
    (underBinding name value).Steps
      (fun rule rule' => (underBinding name value).Tokens rule.tokens rule'.tokens)
      (g.select n) ((g.resolve name value).select n) := by
  intro s s' hs
  unfold select
  rw [get?_resolve]
  cases g.get? n with
  | none => exact .error rfl hs
  | some c =>
      have hempty : (c.resolve name value).isEmpty = c.isEmpty := by
        simp [Cognate.isEmpty, Cognate.resolve]
      simp only [Option.map_some, hempty, hs.1.context, hs.1.chance, suitable_resolve,
        List.isEmpty_map, ruleTotal_resolve]
      split
      · exact .error rfl hs
      · split
        · exact .error rfl hs
        · split
          · rename_i hpos
            rw [ruleAt_resolve (index_lt s.chance hpos)]
            refine .ok (tokens_resolve _) ⟨⟨rfl, ?_⟩, hs.2⟩
            exact congrArg (Chance.draw · 0 _) hs.1.chance
          · exact .error rfl hs

theorem underBinding_resolve (g : Grammar) :
    (underBinding name value).Grammars g (g.resolve name value) 0 where
  select := g.underBinding_select
  last _ := (underBinding_law name value).last rfl

variable {s : State}

theorem sameOutcome_evaluate (g : Grammar) (tokens : List Token)
    (hb : s.context.binding? name = some value) :
    SameOutcome (g.evaluate tokens s)
      ((g.resolve name value).evaluate (tokens.map (Token.resolve name value)) s) :=
  sameOutcome_of_ends (g.underBinding_resolve.evaluate (underBinding_law name value)
    ⟨⟨rfl, rfl⟩, hb⟩ rfl (tokens_resolve tokens))

theorem sameOutcome_generateWith (g : Grammar) (n : String)
    (hb : s.context.binding? name = some value) :
    SameOutcome (g.generateWith n s) ((g.resolve name value).generateWith n s) :=
  sameOutcome_of_ends (g.underBinding_resolve.generateWith (underBinding_law name value)
    ⟨⟨rfl, rfl⟩, hb⟩ rfl n)

end Grammar

/-! ### References behind a binding -/

/-- The cognate that a token asks for where its name is unbound, with that name. -/
inductive Token.Asks : Token → String → String → Prop where
  | nonTerminal (name : String) : (Token.nonTerminal name).Asks name name
  | sticky (name : String) : (Token.sticky name).Asks name name
  | assignment (name rule : String) : (Token.assignment name rule).Asks name rule

/-- The tokens that an evaluation comes to, each in the state that it is evaluated in: those of
the list itself, those in commands, and those of the rules that are selected on the way. -/
inductive Grammar.Visits (g : Grammar) : List Token → State → Token → State → Prop where
  | here {token : Token} {rest : List Token} {s : State} : g.Visits (token :: rest) s token s
  | later {token visited : Token} {rest : List Token} {text : String} {s t u : State}
      (run : evaluateToken g.generateWith token s = (.ok text, t))
      (visit : g.Visits rest t visited u) : g.Visits (token :: rest) s visited u
  | command {command : String} {inner visited : Token} {rest : List Token} {s u : State}
      (visit : g.Visits [inner] s visited u) :
      g.Visits (.expression command inner :: rest) s visited u
  | nested {token visited : Token} {rest : List Token} {name asked : String} {rule : Rule}
      {s t u : State} (asks : token.Asks name asked) (unbound : s.context.isBound name = false)
      (depth : s.context.depth < g.maxDepth)
      (selection : g.select asked (s.requested asked).opened = (.ok rule, t))
      (visit : g.Visits rule.tokens t visited u) : g.Visits (token :: rest) s visited u

/-- The tokens that bind a name where it is unbound. -/
def Token.Binds (name : String) (token : Token) : Prop :=
  token = .sticky name ∨ ∃ rule, token = .assignment name rule

section Behind

variable {g : Grammar} {name value : String}

/-- A binding is in force at every token that an evaluation comes to. -/
theorem Grammar.Visits.binding? {tokens : List Token} {visited : Token} {u : State}
    (h : g.Visits tokens s visited u) (hb : s.context.binding? name = some value) :
    u.context.binding? name = some value := by
  induction h with
  | here => exact hb
  | later run _ ih =>
      have hgrown := (scopeLaw.evaluateToken (scopeLaw.generateWith g) _).of_eq run
      exact ih (hgrown.binding? hb)
  | command _ ih => exact ih hb
  | nested _ _ _ selection _ ih =>
      have hgrown := (scopeLaw.select g _).of_eq selection
      exact ih (hgrown.binding? hb)

/-- A token that binds a name gives the text that it binds, and records the name in the frame. -/
theorem Token.Binds.eq_bound {token : Token} {t : State} (ht : token.Binds name)
    (hn : s.context.isBound name = false)
    (h : evaluateToken g.generateWith token s = (.ok value, t)) :
    t.context.binding? name = some value ∧
      t.context.frames = Context.record [name] s.context.frames := by
  obtain ⟨asked, u, event, hasked, rfl⟩ : ∃ asked u event,
      g.generateWith asked s = (.ok value, u) ∧ t = u.bound name value event := by
    rcases ht with rfl | ⟨rule, rfl⟩
    · rcases boundOr_eq_ok_iff.mp h with ⟨hbound, -⟩ | ⟨-, hbind⟩
      · rw [Context.isBound_eq_false_iff.mp hn] at hbound
        cases hbound
      · obtain ⟨u, hu, rfl⟩ := bindTo_eq_ok_iff.mp hbind
        exact ⟨name, u, _, hu, rfl⟩
    · rcases assignment_eq_ok_iff.mp h with ⟨hbound, -⟩ | ⟨-, u, hu, rfl⟩
      · rw [hn] at hbound
        cases hbound
      · exact ⟨rule, u, _, hu, rfl⟩
  have hunwound : Unwound s u := (scopeLaw.generateWith g asked).of_eq hasked
  constructor
  · exact Table.get?_insert_self _ _ _
  · exact hunwound.frames_bound name value event

/-- A name that is recorded in the innermost frame is unbound when the frame closes. -/
theorem Grown.unbinds {frame : List String} {outer : List (List String)} {t u : State}
    (h : Grown t u) (hf : t.context.frames = frame :: outer) (hm : name ∈ frame) :
    u.closed.context.binding? name = none := by
  obtain ⟨added, -, hframes⟩ := h.added
  rw [hf] at hframes
  change u.context.ascend.binding? name = none
  rw [Context.ascend_of_frames hframes]
  exact Table.get?_foldl_erase (List.mem_append_left _ hm)

end Behind

/-- While a name is bound to a text, a grammar does what it does with that text in the place of
every reference to the name and nothing in the place of every assignment. So behind a sticky
reference or an assignment that has bound the name in an open frame, each reference that the
evaluation comes to gives that text and changes nothing, at any depth, until the frame
closes. -/
theorem Grammar.sameOutcome_resolve (g : Grammar) (name value : String) :
    (∀ s : State, s.context.binding? name = some value →
      (∀ tokens, SameOutcome (g.evaluate tokens s)
        ((g.resolve name value).evaluate (tokens.map (Token.resolve name value)) s)) ∧
      ∀ n, SameOutcome (g.generateWith n s) ((g.resolve name value).generateWith n s)) ∧
    ∀ (token : Token) (s t : State), token.Binds name → s.context.isBound name = false →
      s.context.frames ≠ [] → evaluateToken g.generateWith token s = (.ok value, t) →
      ∀ rest : List Token,
        (∀ reference u, g.Visits rest t reference u → reference.RefersTo name →
          evaluateToken g.generateWith reference u = (.ok value, u)) ∧
        (g.evaluate rest t).2.context.binding? name = some value ∧
        (g.evaluate rest t).2.closed.context.binding? name = none := by
  constructor
  · intro s hb
    constructor
    · exact fun tokens => g.sameOutcome_evaluate tokens hb
    · exact fun n => g.sameOutcome_generateWith n hb
  · intro token s t htoken hn hframes hrun rest
    obtain ⟨hbound, hrecord⟩ := htoken.eq_bound hn hrun
    have hgrown := scopeLaw.evaluate g rest t
    refine ⟨?_, hgrown.binding? hbound, ?_⟩
    · intro reference u hvisit hreference
      exact hreference.evaluateToken (hvisit.binding? hbound) _
    · cases hf : s.context.frames with
      | nil => exact absurd hf hframes
      | cons frame outer =>
          rw [hf] at hrecord
          exact hgrown.unbinds hrecord (List.mem_append_right _ (List.mem_singleton_self name))

/-- The tale in a frame: its second word repeats the beast that its first one is about. -/
theorem resolve_farm_ox :
    let s : State := .start ⟨∅, ∅, [[]]⟩ (.ofArray #[])
    let t := (evaluateToken farm.generateWith (.sticky "beast") s).2
    s.context.isBound "beast" = false ∧
      SameOutcome (farm.generateWith "tale" t)
        ((farm.resolve "beast" "ox").generateWith "tale" t) ∧
      evaluateToken farm.generateWith (.binding "beast") t = (.ok "ox", t) := by
  intro s t
  have hrun : evaluateToken farm.generateWith (.sticky "beast") s = (.ok "ox", t) := rfl
  obtain ⟨hresolve, hbehind⟩ := farm.sameOutcome_resolve "beast" "ox"
  have hrest := hbehind _ s t (Or.inl rfl) rfl (List.cons_ne_nil _ _) hrun
  refine ⟨rfl, (hresolve t rfl).2 "tale", ?_⟩
  exact (hrest [.literal " ", .expression "capitalize" (.binding "beast")]).1 _ _
    (.later rfl (.command .here)) (Or.inr (Or.inr rfl))

end TaggedGrammar
