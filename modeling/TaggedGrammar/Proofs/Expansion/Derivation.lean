import TaggedGrammar.Proofs.Expansion.Step
import TaggedGrammar.Proofs.Grammar.Parsed

/-!
# The meaning of a grammar

A `Derivation` says that a cognate, a token or a list of tokens may stand for a text, and how
the context changes on the way. Any group that the context accepts may be taken and any of its
rules, and a range may stand for any of its numbers. There is no stream of draws in it and no
limit to the nesting; how deep cognates are nested is the height of the derivation.

## Main statements

* `evaluateToken_sound`, `evaluateTokens_sound`: what tokens are evaluated to, they stand for.
* `expandCognate_sound`: what a cognate is expanded to with so many levels left has a
  derivation of at most that height.

## Implementation notes

Derivations are data and not only a relation, so that their height is a function of them.
-/

namespace TaggedGrammar

/-- The name that a token refers to, if it is nothing but a reference. -/
def Token.reference? : Token → Option String
  | .nonTerminal name => some name
  | .sticky name => some name
  | .binding name => some name
  | _ => none

/-- What can stand for a text. -/
inductive Phrase where
  | cognate (name : String)
  | token (token : Token)
  | tokens (tokens : List Token)

/-- How a phrase comes to stand for a text, between the contexts before and behind it. -/
inductive Derivation (g : Grammar) : Context → Phrase → String → Context → Type where
  /-- Some rule of some accepted group stands for the text, in a frame of its own. -/
  | cognate {ctx ctx' : Context} {name text : String} {c : Cognate} {group : Group}
      {rule : Rule} (known : g.get? name = some c) (listed : group ∈ c.groups)
      (accepted : ctx.accepts group = true) (member : rule ∈ group.rules)
      (body : Derivation g (ctx.merge group).descend (.tokens rule.tokens) text ctx') :
      Derivation g ctx (.cognate name) text ctx'.ascend
  | nil {ctx : Context} : Derivation g ctx (.tokens []) "" ctx
  | cons {ctx ctx' ctx'' : Context} {token : Token} {rest : List Token} {text text' : String}
      (first : Derivation g ctx (.token token) text ctx')
      (others : Derivation g ctx' (.tokens rest) text' ctx'') :
      Derivation g ctx (.tokens (token :: rest)) (text ++ text') ctx''
  | literal {ctx : Context} {text : String} :
      Derivation g ctx (.token (.literal text)) text ctx
  /-- A reference to a name that is bound stands for the text bound to it. -/
  | bound {ctx : Context} {token : Token} {name text : String}
      (refers : token.reference? = some name) (bound : ctx.binding? name = some text) :
      Derivation g ctx (.token token) text ctx
  | nonTerminal {ctx ctx' : Context} {name text : String}
      (unbound : ctx.isBound name = false)
      (expansion : Derivation g ctx (.cognate name) text ctx') :
      Derivation g ctx (.token (.nonTerminal name)) text ctx'
  | sticky {ctx ctx' : Context} {name text : String} (unbound : ctx.isBound name = false)
      (expansion : Derivation g ctx (.cognate name) text ctx') :
      Derivation g ctx (.token (.sticky name)) text (ctx'.bind name text)
  | range {ctx : Context} {lower upper k : Int} (least : lower ≤ k) (most : k < upper) :
      Derivation g ctx (.token (.range lower upper)) (toString k) ctx
  | assigned {ctx : Context} {name rule : String} (bound : ctx.isBound name = true) :
      Derivation g ctx (.token (.assignment name rule)) "" ctx
  | assignment {ctx ctx' : Context} {name rule text : String}
      (unbound : ctx.isBound name = false)
      (expansion : Derivation g ctx (.cognate rule) text ctx') :
      Derivation g ctx (.token (.assignment name rule)) text (ctx'.bind name text)
  | expression {ctx ctx' : Context} {command text : String} {inner : Token} {c : Command}
      (known : Command.ofName? command = some c)
      (body : Derivation g ctx (.token inner) text ctx') :
      Derivation g ctx (.token (.expression command inner)) (c.apply text) ctx'

/-- How deep expansions of cognates are nested in a derivation. -/
def Derivation.height {g : Grammar} {ctx ctx' : Context} {phrase : Phrase} {text : String} :
    Derivation g ctx phrase text ctx' → Nat
  | cognate _ _ _ _ body => body.height + 1
  | cons first others => max first.height others.height
  | nonTerminal _ expansion => expansion.height
  | sticky _ expansion => expansion.height
  | assignment _ expansion => expansion.height
  | expression _ body => body.height
  | nil => 0
  | literal => 0
  | bound _ _ => 0
  | range _ _ => 0
  | assigned _ => 0

/-- There is a derivation of at most the given height. -/
def Derivable (g : Grammar) (height : Nat) (ctx : Context) (phrase : Phrase) (text : String)
    (ctx' : Context) : Prop :=
  ∃ d : Derivation g ctx phrase text ctx', d.height ≤ height

/-! ### Tokens -/

section Tokens

variable {g : Grammar} {height : Nat} {expand : String → Step String}
  (hexp : ∀ {name s text t}, expand name s = (.ok text, t) →
    Derivable g height s.context (.cognate name) text t.context)
include hexp

theorem evaluateToken_sound {token : Token} (hr : token.Regular) {s t : State}
    {text : String} (h : evaluateToken expand token s = (.ok text, t)) :
    Derivable g height s.context (.token token) text t.context := by
  induction token generalizing text t with
  | literal value =>
      cases h
      exact ⟨.literal, Nat.zero_le _⟩
  | nonTerminal name =>
      rcases boundOr_eq_ok_iff.mp h with ⟨hb, rfl⟩ | ⟨hu, he⟩
      · exact ⟨.bound rfl hb, Nat.zero_le _⟩
      · obtain ⟨d, hd⟩ := hexp he
        exact ⟨.nonTerminal hu d, hd⟩
  | sticky name =>
      rcases boundOr_eq_ok_iff.mp h with ⟨hb, rfl⟩ | ⟨hu, he⟩
      · exact ⟨.bound rfl hb, Nat.zero_le _⟩
      · obtain ⟨u, hu', rfl⟩ := bindTo_eq_ok_iff.mp he
        obtain ⟨d, hd⟩ := hexp hu'
        exact ⟨.sticky hu d, hd⟩
  | binding name =>
      obtain ⟨hb, rfl⟩ := readBinding_eq_ok_iff.mp h
      exact ⟨.bound rfl hb, Nat.zero_le _⟩
  | range lower upper =>
      cases h
      exact ⟨.range (Chance.le_value hr) (Chance.value_lt hr), Nat.zero_le _⟩
  | assignment name rule =>
      rcases assignment_eq_ok_iff.mp h with ⟨hb, rfl, rfl⟩ | ⟨hu, u, he, rfl⟩
      · exact ⟨.assigned hb, Nat.zero_le _⟩
      · obtain ⟨d, hd⟩ := hexp he
        exact ⟨.assignment hu d, hd⟩
  | expression command inner ih =>
      obtain ⟨value, u, hinner, happly⟩ := Step.andThen_eq_ok_iff.mp h
      obtain ⟨c, hc, rfl, rfl⟩ := applyCommand_eq_ok_iff.mp happly
      obtain ⟨d, hd⟩ := ih hr.2 hinner
      exact ⟨.expression hc d, hd⟩
  | stray value => cases h

theorem evaluateTokens_sound {tokens : List Token} (hr : ∀ token ∈ tokens, token.Regular)
    {s t : State} {text : String} (h : evaluateTokens expand tokens s = (.ok text, t)) :
    Derivable g height s.context (.tokens tokens) text t.context := by
  induction tokens generalizing s text with
  | nil =>
      cases h
      exact ⟨.nil, Nat.zero_le _⟩
  | cons token rest ih =>
      obtain ⟨first, u, hfirst, hmap⟩ := Step.andThen_eq_ok_iff.mp h
      obtain ⟨others, hothers, rfl⟩ := Step.map_eq_ok_iff.mp hmap
      obtain ⟨d, hd⟩ := evaluateToken_sound hexp (hr token List.mem_cons_self) hfirst
      obtain ⟨e, he⟩ := ih (fun other ho => hr other (List.mem_cons_of_mem token ho)) hothers
      exact ⟨.cons d e, max_le hd he⟩

end Tokens

/-! ### Cognates -/

namespace Grammar

theorem expandCognate_sound {g : Grammar} (hg : g.Parsed) {levels : Nat} {name text : String}
    {s t : State} (h : g.expandCognate levels name s = (.ok text, t)) :
    Derivable g levels s.context (.cognate name) text t.context := by
  induction levels generalizing name text s t with
  | zero => cases h
  | succ levels ih =>
      rw [expandCognate_succ] at h
      obtain ⟨u, hbody, rfl⟩ := Step.inFrame_eq_ok_iff.mp h
      obtain ⟨rule, v, hselect, htokens⟩ := Step.andThen_eq_ok_iff.mp hbody
      rcases g.select_cases name (s.requested name).opened with
        ⟨e, he⟩ | ⟨c, group, rule', index, hc, -, hoffered, hchosen⟩
      · rw [he] at hselect
        cases hselect
      · obtain ⟨hrule, rfl⟩ := Prod.mk.inj (hchosen.symm.trans hselect)
        cases hrule
        obtain ⟨hgroup, haccepts, hmember⟩ := mem_offered.mp (List.mem_of_getElem? hoffered)
        obtain ⟨d, hd⟩ := evaluateTokens_sound ih (hg.regular hc hgroup hmember) htokens
        exact ⟨.cognate hc hgroup haccepts hmember d, Nat.succ_le_succ hd⟩

end Grammar

end TaggedGrammar
