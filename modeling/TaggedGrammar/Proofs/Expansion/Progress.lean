import Mathlib.Logic.Relation
import TaggedGrammar.Proofs.Expansion.Depth
import TaggedGrammar.Proofs.Expansion.Safety

/-!
# Expansions that always come to an end with a text

An expansion can fail for want of a cognate, of a rule, of a group that suits the tags, of a
binding, or at the limit of nesting. None of this happens where every cognate that can be
requested on the way is there and has a rule that stands under no tags, every binding that is
read is there at the beginning, and requests do not follow each other further than the limit
allows. These conditions are about the grammar and the first context only. They stay true from
one level of nesting to the next, because tags can shut out no group that has none, and what is
bound at the beginning stays bound in all frames.

## Main statements

* `Grammar.Grounded.request`: the conditions hold again one level deeper.
* `answers_evaluateToken`, `answers_evaluateTokens`: tokens give a text if their requests do.
* `Grammar.Grounded.answers_generateWith`: grounded names always expand to a text.
-/

namespace TaggedGrammar

/-! ### What rules ask for -/

/-- The names that have to be bound where a token is evaluated. -/
def Token.reads : Token → List String
  | binding name => [name]
  | expression _ inner => inner.reads
  | literal _ | nonTerminal _ | sticky _ | range _ _ | assignment _ _ | stray _ => []

/-- The tokens of all rules of a cognate. -/
def Cognate.tokens (c : Cognate) : List Token :=
  c.groups.flatMap fun group => group.rules.flatMap Rule.tokens

theorem Cognate.mem_tokens {c : Cognate} {group : Group} {rule : Rule} {token : Token}
    (hgroup : group ∈ c.groups) (hrule : rule ∈ group.rules) (htoken : token ∈ rule.tokens) :
    token ∈ c.tokens :=
  List.mem_flatMap.mpr ⟨group, hgroup, List.mem_flatMap.mpr ⟨rule, hrule, htoken⟩⟩

namespace Grammar

variable {g : Grammar} {ctx : Context} {name : String}

/-- The tokens of all rules under a name, none if there is no cognate of the name. -/
def tokensOf (g : Grammar) (name : String) : List Token :=
  ((g.get? name).map Cognate.tokens).getD []

/-- Some rule of the first cognate may request the second. -/
def Requests (g : Grammar) (name other : String) : Prop :=
  ∃ token ∈ g.tokensOf name, other ∈ token.requests

instance (g : Grammar) (name other : String) : Decidable (g.Requests name other) :=
  inferInstanceAs (Decidable (∃ token ∈ g.tokensOf name, other ∈ token.requests))

theorem Requests.mem_names {other : String} (h : g.Requests name other) : name ∈ g.names := by
  obtain ⟨token, ht, -⟩ := h
  cases hc : g.get? name with
  | none => simp [tokensOf, hc] at ht
  | some c => exact List.mem_map_of_mem (Table.get?_eq_some_iff.mp hc)

/-- A cognate may be requested in some expansion of another. -/
def Reaches (g : Grammar) : String → String → Prop := Relation.ReflTransGen g.Requests

/-- There is a cognate of the name, and some of its rules stand under no tags. -/
def OffersUntagged (g : Grammar) (name : String) : Prop :=
  ∃ c group, g.get? name = some c ∧ group ∈ c.groups ∧ group.tags = ∅ ∧ group.rules ≠ []

/-- Nothing that an expansion of the name needs is missing in the grammar or in the context,
and no chain of requests is longer than the levels of nesting that are left. -/
structure Grounded (g : Grammar) (ctx : Context) (name : String) : Prop where
  offers : ∀ other, g.Reaches name other → g.OffersUntagged other
  bound : ∀ other, g.Reaches name other → ∀ token ∈ g.tokensOf other,
    ∀ read ∈ token.reads, ctx.isBound read = true
  chains : ∀ rest, (name :: rest).IsChain g.Requests →
    ((name :: rest).length : Int) ≤ g.maxDepth - ctx.depth

theorem Grounded.depth_lt (h : g.Grounded ctx name) : (ctx.depth : Int) < g.maxDepth := by
  have hself := h.chains [] (.singleton name)
  simp only [List.length_cons, List.length_nil] at hself
  omega

/-- Behind a request, one level deeper, with at least the same names bound, the conditions
hold for the cognate that was requested. -/
theorem Grounded.request (h : g.Grounded ctx name) {other : String}
    (hr : g.Requests name other) {ctx' : Context} (hdepth : ctx'.depth = ctx.depth + 1)
    (hbound : ∀ read, ctx.isBound read = true → ctx'.isBound read = true) :
    g.Grounded ctx' other := by
  constructor
  · intro n hn
    exact h.offers n (hn.head hr)
  · intro n hn token ht read hread
    apply hbound
    exact h.bound n (hn.head hr) token ht read hread
  · intro rest hchain
    have hlonger := h.chains (other :: rest) (hchain.cons_cons hr)
    simp only [List.length_cons] at hlonger ⊢
    omega

end Grammar

/-! ### Tokens -/

theorem Grown.isBound {s t : State} (h : Grown s t) {name : String}
    (hb : s.context.isBound name = true) : t.context.isBound name = true := by
  obtain ⟨added, he, -⟩ := h.added
  cases ht : t.context.isBound name with
  | true => rfl
  | false =>
      have hs := isBound_of_extends ⟨added, he.symm⟩ ht
      exact absurd hb (by simp [hs])

namespace Step

variable {α β : Type} {step : Step α} {s : State}

/-- The step does not fail in the state. -/
def Answers (step : Step α) (s : State) : Prop := ∃ a t, step s = (.ok a, t)

theorem answers_pure (a : α) (s : State) : (Step.pure a).Answers s := ⟨a, s, rfl⟩

theorem Answers.andThen {next : α → Step β} (h : step.Answers s)
    (hn : ∀ a t, step s = (.ok a, t) → (next a).Answers t) : (step.andThen next).Answers s := by
  obtain ⟨a, t, ht⟩ := h
  obtain ⟨b, u, hu⟩ := hn a t ht
  exact ⟨b, u, andThen_eq_ok_iff.mpr ⟨a, t, ht, hu⟩⟩

theorem Answers.map (h : step.Answers s) (f : α → β) : (step.map f).Answers s := by
  rw [map_eq_andThen]
  apply h.andThen
  intro a t _
  exact answers_pure (f a) t

theorem Answers.inFrame (h : step.Answers s.opened) : step.inFrame.Answers s := by
  obtain ⟨a, t, ht⟩ := h
  exact ⟨a, t.closed, inFrame_eq_ok_iff.mpr ⟨t, ht, rfl⟩⟩

end Step

section Tokens

open Step

variable {name : String} {step : Step String} {expand : String → Step String} {s : State}

theorem answers_boundOr (h : s.context.isBound name = false → step.Answers s) :
    (boundOr name step).Answers s := by
  cases hb : s.context.binding? name with
  | some text => exact ⟨text, s, boundOr_eq_ok_iff.mpr (Or.inl ⟨hb, rfl⟩)⟩
  | none =>
      have hunbound := Context.isBound_eq_false_iff.mpr hb
      obtain ⟨text, t, ht⟩ := h hunbound
      exact ⟨text, t, boundOr_eq_ok_iff.mpr (Or.inr ⟨hunbound, ht⟩)⟩

theorem answers_readBinding (h : s.context.isBound name = true) :
    (readBinding name).Answers s := by
  apply answers_boundOr
  intro hunbound
  exact absurd h (by simp [hunbound])

theorem answers_bindTo (event : String → String → Event) (h : step.Answers s) :
    (bindTo name event step).Answers s := by
  obtain ⟨text, t, ht⟩ := h
  exact ⟨text, _, bindTo_eq_ok_iff.mpr ⟨t, ht, rfl⟩⟩

theorem answers_applyCommand {command : String} (h : ∃ c, Command.ofName? command = some c)
    (text : String) (s : State) : (applyCommand command text).Answers s := by
  obtain ⟨c, hc⟩ := h
  exact ⟨c.apply text, s, applyCommand_eq_ok_iff.mpr ⟨c, hc, rfl, rfl⟩⟩

/-- A token gives a text if what it reads is bound and the cognates that it requests expand to
texts. -/
theorem answers_evaluateToken {token : Token} (hr : token.Regular)
    (hreads : ∀ name ∈ token.reads, s.context.isBound name = true)
    (hexp : ∀ name ∈ token.requests, (expand name).Answers s) :
    (evaluateToken expand token).Answers s := by
  induction token with
  | literal text => exact answers_pure text s
  | nonTerminal name =>
      apply answers_boundOr
      intro _
      exact hexp name (List.mem_singleton_self name)
  | sticky name =>
      apply answers_boundOr
      intro _
      exact answers_bindTo .stuck (hexp name (List.mem_singleton_self name))
  | binding name => exact answers_readBinding (hreads name (List.mem_singleton_self name))
  | range lower upper => exact ⟨_, _, rfl⟩
  | assignment name rule =>
      cases hb : s.context.isBound name with
      | true => exact ⟨"", s, assignment_eq_ok_iff.mpr (Or.inl ⟨hb, rfl, rfl⟩)⟩
      | false =>
          obtain ⟨text, t, ht⟩ := hexp rule (List.mem_singleton_self rule)
          exact ⟨text, _, assignment_eq_ok_iff.mpr (Or.inr ⟨hb, t, ht, rfl⟩)⟩
  | expression command inner ih =>
      apply (ih hr.2 hreads hexp).andThen
      intro text t _
      exact answers_applyCommand hr.1 text t
  | stray value => exact hr.elim

/-- Tokens give a text if the cognates that they request expand to texts in all states that
the tokens before can lead to. -/
theorem answers_evaluateTokens (hscope : ∀ name, (expand name).Within Unwound)
    {tokens : List Token} (hr : ∀ token ∈ tokens, token.Regular)
    (hreads : ∀ token ∈ tokens, ∀ name ∈ token.reads, s.context.isBound name = true)
    (hexp : ∀ token ∈ tokens, ∀ name ∈ token.requests, ∀ t, Grown s t →
      (expand name).Answers t) : (evaluateTokens expand tokens).Answers s := by
  induction tokens generalizing s with
  | nil => exact answers_pure "" s
  | cons token rest ih =>
      obtain ⟨hrtoken, hrrest⟩ := List.forall_mem_cons.mp hr
      obtain ⟨hreadstoken, hreadsrest⟩ := List.forall_mem_cons.mp hreads
      obtain ⟨hexptoken, hexprest⟩ := List.forall_mem_cons.mp hexp
      have hself : Grown s s := scopeLaw.inner_refl s
      have htoken := answers_evaluateToken hrtoken hreadstoken
        fun name hn => hexptoken name hn s hself
      apply htoken.andThen
      intro text t ht
      have hgrown : Grown s t := (scopeLaw.evaluateToken hscope token).of_eq ht
      apply Answers.map
      apply ih hrrest
      · intro other ho name hn
        exact hgrown.isBound (hreadsrest other ho name hn)
      · intro other ho name hn u hu
        exact hexprest other ho name hn u (hgrown.trans hu)

end Tokens

/-! ### Cognates -/

theorem Context.accepts_of_untagged {ctx : Context} {group : Group} (h : group.tags = ∅) :
    ctx.accepts group = true := by
  apply accepts_iff.mpr
  intro k v w _ hw
  rw [h] at hw
  cases hw

namespace Grammar

variable {g : Grammar} {name : String} {s : State}

/-- Where a rule stands under no tags, a rule can be selected, whatever the tags and the
draw. -/
theorem OffersUntagged.answers_select (h : g.OffersUntagged name) (s : State) :
    (g.select name).Answers s := by
  obtain ⟨c, group, hc, hgroup, htags, hrules⟩ := h
  obtain ⟨rule, hrule⟩ := List.exists_mem_of_ne_nil group.rules hrules
  have hmem : (group, rule) ∈ offered s.context c :=
    mem_offered.mpr ⟨hgroup, Context.accepts_of_untagged htags, hrule⟩
  have hindex := index_lt s.chance (List.length_pos_of_mem hmem)
  exact ⟨_, _, select_eq_chosen g hc rfl (List.getElem?_eq_getElem hindex)⟩

/-- The tokens of a rule that was selected are tokens of its cognate. -/
theorem mem_tokensOf_of_select {rule : Rule} {t : State} (h : g.select name s = (.ok rule, t))
    {token : Token} (ht : token ∈ rule.tokens) : token ∈ g.tokensOf name := by
  obtain ⟨c, group, hc, hgroup, hrule⟩ := mem_of_select h
  rw [tokensOf, hc]
  exact Cognate.mem_tokens hgroup hrule ht

theorem Parsed.regular_of_select (hg : g.Parsed) {rule : Rule} {t : State}
    (h : g.select name s = (.ok rule, t)) : ∀ token ∈ rule.tokens, token.Regular := by
  obtain ⟨c, group, hc, hgroup, hrule⟩ := mem_of_select h
  exact hg.regular hc hgroup hrule

/-- The induction is on the levels of nesting that are left in the state. -/
theorem Grounded.answers_of_levels (hg : g.Parsed) {levels : Nat}
    (hl : g.levels s.context = levels) (h : g.Grounded s.context name) :
    (g.generateWith name).Answers s := by
  induction levels generalizing name s with
  | zero =>
      have hdepth := h.depth_lt
      rw [Grammar.levels] at hl
      omega
  | succ levels ih =>
      have hframe : (Step.inFrame ((g.select name).andThen fun rule =>
          evaluateTokens g.generateWith rule.tokens)).Answers (s.requested name) := by
        apply Step.Answers.inFrame
        apply ((h.offers name .refl).answers_select _).andThen
        intro rule t ht
        -- One level deeper, in the frame that was opened, and with the same names bound.
        have hopened : Grown (s.requested name).opened t := (scopeLaw.select g name).of_eq ht
        have hdepth : t.context.depth = s.context.depth + 1 := hopened.depth
        have hbound (read : String) (hb : s.context.isBound read = true) :
            t.context.isBound read = true := hopened.isBound hb
        apply answers_evaluateTokens (scopeLaw.generateWith g) (hg.regular_of_select ht)
        · intro token hm read hread
          apply hbound
          exact h.bound name .refl token (mem_tokensOf_of_select ht hm) read hread
        · intro token hm other hother u hu
          have hrequest : g.Requests name other := ⟨token, mem_tokensOf_of_select ht hm, hother⟩
          have hdepth' : u.context.depth = s.context.depth + 1 := hu.depth.trans hdepth
          apply ih
          · rw [Grammar.levels] at hl ⊢
            omega
          · exact h.request hrequest hdepth' fun read hb => hu.isBound (hbound read hb)
      obtain ⟨text, t, ht⟩ := hframe
      refine ⟨text, t, ?_⟩
      rw [generateWith_eq, if_neg (not_le.mpr h.depth_lt)]
      exact ht

/-- In a parsed grammar a grounded name expands to a text, whatever the tags are at the
beginning and whatever is drawn. -/
theorem Grounded.answers_generateWith (hg : g.Parsed) {ctx : Context}
    (h : g.Grounded ctx name) (tags : Table String) (s : State)
    (hs : s.context = { ctx with tags := tags }) : (g.generateWith name).Answers s := by
  have hgrounded : g.Grounded s.context name := by
    rw [hs]
    exact ⟨h.offers, h.bound, h.chains⟩
  exact Grounded.answers_of_levels hg rfl hgrounded

end Grammar

/-! ### A grounded grammar -/

/-- A menu for a guest, with a dish that depends on a grain and on the season. -/
def feast : Grammar := .ofCognates
  [⟨"menu", [⟨[⟨"<(cap dish)> for <@guest>",
      [.expression "capitalize" (.nonTerminal "dish"), .literal " for ", .binding "guest"]⟩],
      ∅, ""⟩]⟩,
    ⟨"dish", [⟨[⟨"<$base:grain> soup", [.assignment "base" "grain", .literal " soup"]⟩], ∅, ""⟩,
      ⟨[⟨"stew", [.literal "stew"]⟩], Table.insert ∅ "season" "winter", ""⟩]⟩,
    ⟨"grain", [⟨[⟨"rice", [.literal "rice"]⟩], ∅, ""⟩]⟩] 3

theorem parsed_feast : feast.Parsed := by
  have hcognates : feast.toList = [_, _, _] := rfl
  rw [Grammar.Parsed, hcognates]
  simp only [List.forall_mem_cons, List.not_mem_nil, false_implies, implies_true, and_true,
    Rule.Parsed]
  refine ⟨?_, ⟨?_, ?_⟩, ?_⟩
  all_goals decide +kernel

/-- The menu requests the dish, the dish a grain, and a grain nothing. -/
theorem requests_feast {name other : String} (h : feast.Requests name other) :
    name = "menu" ∧ other = "dish" ∨ name = "dish" ∧ other = "grain" := by
  have hall : ∀ n ∈ feast.names, ∀ token ∈ feast.tokensOf n, ∀ m ∈ token.requests,
      n = "menu" ∧ m = "dish" ∨ n = "dish" ∧ m = "grain" := by decide
  obtain ⟨token, ht, hm⟩ := id h
  exact hall name h.mem_names token ht other hm

/-- The three cognates take just the three levels of nesting that there are. -/
theorem grounded_feast : feast.Grounded ⟨∅, Table.insert ∅ "guest" "Ann", []⟩ "menu" := by
  have hreach (n : String) (hn : feast.Reaches "menu" n) : n ∈ feast.names := by
    induction hn with
    | refl => decide
    | tail _ hr _ => rcases requests_feast hr with ⟨-, rfl⟩ | ⟨-, rfl⟩ <;> decide
  have hoffers : ∀ n ∈ feast.names, feast.OffersUntagged n := by
    have hnames : feast.names = ["menu", "dish", "grain"] := rfl
    simp only [hnames, List.forall_mem_cons, List.not_mem_nil, false_implies, implies_true,
      and_true]
    exact ⟨⟨_, _, rfl, List.mem_cons_self, rfl, List.cons_ne_nil _ _⟩,
      ⟨_, _, rfl, List.mem_cons_self, rfl, List.cons_ne_nil _ _⟩,
      ⟨_, _, rfl, List.mem_cons_self, rfl, List.cons_ne_nil _ _⟩⟩
  have hreads : ∀ n ∈ feast.names, ∀ token ∈ feast.tokensOf n, ∀ read ∈ token.reads,
      read = "guest" := by decide
  constructor
  · intro n hn
    exact hoffers n (hreach n hn)
  · intro n hn token ht read hread
    rw [hreads n (hreach n hn) token ht read hread]
    rfl
  · intro rest hchain
    change ((_ :: rest).length : Int) ≤ 3
    match rest, hchain with
    | [], _ | [_], _ | [_, _], _ => simp
    | n :: m :: k :: rest, hchain =>
      simp only [List.isChain_cons_cons] at hchain
      obtain ⟨hn, hm, hk, -⟩ := hchain
      obtain rfl : n = "dish" := by simpa using requests_feast hn
      obtain rfl : m = "grain" := by simpa using requests_feast hm
      exact absurd (requests_feast hk) (by simp)

theorem answers_feast : feast.Parsed ∧
    feast.Grounded ⟨∅, Table.insert ∅ "guest" "Ann", []⟩ "menu" ∧
    (feast.generateWith "menu").Answers
      (.start ⟨Table.insert ∅ "season" "winter", Table.insert ∅ "guest" "Ann", []⟩
        (.ofArray #[0, 1])) :=
  ⟨parsed_feast, grounded_feast, grounded_feast.answers_generateWith parsed_feast _ _ rfl⟩

end TaggedGrammar
