import TaggedGrammar.Proofs.Expansion.Frames
import TaggedGrammar.Proofs.Expansion.Resolution

/-!
# Ways to come to a cognate

A cognate is expanded by its name, or by a template that holds nothing but a reference to it, a
sticky reference or an assignment. The template has a frame of its own, so everything happens with
one more open frame there. Under a limit that is higher by one the four ways end alike: the
expansion does not look at the frames that were open before it, and what the template binds is gone
when its frame closes.

## Main statements

* `exists_asks_of_mem_entryTemplates`: the templates are read as one token that asks for the name.
* `Grammar.endsAlike_expandWith`: the four ways end alike.
-/

namespace TaggedGrammar

variable {α : Type} {s : State}

/-! ### Templates of one substitution -/

namespace Template

theorem parse_substitution {b : Body} (h : b.WellFormed) {template : String}
    (ht : template.toList = (Piece.substitution b).text) : parse template = .ok [b.token] := by
  have hpieces : Decomposes [.substitution b] template.toList := by
    refine ⟨List.forall_mem_singleton.mpr h, .singleton _, ?_⟩
    rw [ht, List.flatMap_singleton]
  exact parseChars_of_decomposes (List.cons_ne_nil _ _) hpieces

end Template

/-- The templates that hold nothing but a reference to a name, a sticky one or an assignment of it
to a label. -/
def entryTemplates (name label : String) : List String :=
  ["<" ++ name ++ ">", "<!" ++ name ++ ">", "<$" ++ label ++ ":" ++ name ++ ">"]

/-- Each of the templates has one token, which asks for the name unless it or the label is bound. -/
theorem exists_asks_of_mem_entryTemplates {name label literal : String}
    (hname : Text.isName name.toList = true) (hlabel : Text.isName label.toList = true)
    (h : literal ∈ entryTemplates name label) :
    ∃ token bound, (bound = name ∨ bound = label) ∧ token.Asks bound name ∧
      Template.parse literal = .ok [token] := by
  have parse {b : Template.Body} (hb : b.WellFormed)
      (ht : literal.toList = (Template.Piece.substitution b).text) :
      Template.parse literal = .ok [b.token] := Template.parse_substitution hb ht
  simp only [entryTemplates, List.mem_cons, List.not_mem_nil, or_false] at h
  rcases h with rfl | rfl | rfl
  · have hparse := parse (b := .name name.toList) hname
      (by simp [Template.Piece.text, Template.Body.text])
    rw [Template.Body.token, String.ofList_toList] at hparse
    exact ⟨_, name, Or.inl rfl, .nonTerminal name, hparse⟩
  · have hparse := parse (b := .sticky name.toList) hname
      (by simp [Template.Piece.text, Template.Body.text])
    rw [Template.Body.token, String.ofList_toList] at hparse
    exact ⟨_, name, Or.inl rfl, .sticky name, hparse⟩
  · have hparse := parse (b := .assignment label.toList name.toList) ⟨hlabel, hname⟩
      (by simp [Template.Piece.text, Template.Body.text])
    rw [Template.Body.token, String.ofList_toList, String.ofList_toList] at hparse
    exact ⟨_, label, Or.inr rfl, .assignment label name, hparse⟩

theorem evaluateTokens_singleton (expand : String → Step String) (token : Token) :
    evaluateTokens expand [token] = evaluateToken expand token := by
  have happend : (fun text : String => (Step.pure "").map (text ++ ·)) = Step.pure := by
    funext text s
    simp [Step.map, Step.pure]
  rw [evaluateTokens, evaluateTokens, happend]
  exact Step.map_id _

/-- Where its name is unbound a token does what the expansion that it asks for does, but for what
it binds. -/
theorem Token.Asks.evaluateToken_eq {token : Token} {name asked : String}
    (h : token.Asks name asked) (hn : s.context.isBound name = false)
    (expand : String → Step String) :
    (evaluateToken expand token s).1 = (expand asked s).1 ∧
      (evaluateToken expand token s).2.context.tags = (expand asked s).2.context.tags ∧
      (evaluateToken expand token s).2.chance = (expand asked s).2.chance := by
  have hunbound := Context.isBound_eq_false_iff.mp hn
  cases h with
  | nonTerminal name => simp only [evaluateToken, boundOr, hunbound, and_self]
  | sticky name =>
      simp only [evaluateToken, boundOr, hunbound, bindTo, Step.andThen]
      cases expand name s with
      | mk result t =>
          cases result with
          | ok value => exact ⟨rfl, rfl, rfl⟩
          | error e => exact ⟨rfl, rfl, rfl⟩
  | assignment name rule =>
      cases hr : expand asked s with
      | mk result t =>
          cases result with
          | ok value =>
              have hassigned : evaluateToken expand (.assignment name asked) s =
                  (.ok value, t.bound name value (.assigned name value)) :=
                assignment_eq_ok_iff.mpr (Or.inr ⟨hn, t, hr, rfl⟩)
              rw [hassigned]
              exact ⟨rfl, rfl, rfl⟩
          | error e =>
              simp [evaluateToken, hn, bindTo, Step.andThen, hr]

/-! ### The four ways -/

/-- The two runs end with the same value or the same error, but for the limit that it tells, and
leave the same context and the same draws. -/
structure EndsAlike (limit : Int) (r r' : Except ExpansionError α × State) : Prop where
  result : r'.1 = r.1.mapError (.withLimit limit)
  state : r.2.Alike r'.2

/-- Where bindings and frames are as they were, only the tags are left to compare. -/
theorem Unwound.alike {t t' : State} (h : Unwound s t) (h' : Unwound s t')
    (htags : t'.context.tags = t.context.tags) (hchance : t'.chance = t.chance) : t.Alike t' := by
  refine ⟨?_, hchance⟩
  calc t'.context
      = ⟨t.context.tags, s.context.bindings, s.context.frames⟩ := by
        rw [← htags, ← h'.bindings, ← h'.frames]
    _ = t.context := by rw [← h.bindings, ← h.frames]

namespace Grammar

/-- The frame of a template takes up one level of nesting. -/
theorem levels_opened (g : Grammar) (limit : Int) (s : State) :
    (g.withLimit (limit + 1)).levels s.opened.context = (g.withLimit limit).levels s.context := by
  have hlevels : limit + 1 - (s.context.depth + 1 : Nat) = limit - s.context.depth := by omega
  exact congrArg Int.toNat hlevels

/-- A cognate is expanded alike by its name and by a template that only asks for it, where the
template may open one frame more. -/
theorem endsAlike_expandWith (g : Grammar) (limit : Int) (s : State) {name label : String}
    (hname : Text.isName name.toList = true) (hlabel : Text.isName label.toList = true)
    (hn : s.context.isBound name = false) (hl : s.context.isBound label = false) :
    ∀ literal ∈ entryTemplates name label,
      EndsAlike (limit + 1) ((g.withLimit limit).generateWith name s)
        ((g.withLimit (limit + 1)).expandWith literal s) := by
  intro literal hliteral
  obtain ⟨token, bound, hbound, hasks, hparse⟩ :=
    exists_asks_of_mem_entryTemplates hname hlabel hliteral
  have hunbound : s.opened.context.isBound bound = false := by
    rcases hbound with rfl | rfl
    · exact hn
    · exact hl
  have hrule : Rule.ofLiteral literal = .ok ⟨literal, [token]⟩ :=
    Rule.ofLiteral_eq_ok_iff.mpr ⟨rfl, hparse⟩
  let expand := (g.withLimit (limit + 1)).expandCognate ((g.withLimit limit).levels s.context)
  have hexpand : (g.withLimit (limit + 1)).expandWith literal s =
      Step.inFrame (evaluateToken expand token) s := by
    rw [expandWith, hrule]
    apply Step.inFrame_congr
    rw [evaluate, levels_opened, evaluateTokens_singleton]
  have hopened : s.SameData s.opened := ⟨rfl, rfl, rfl⟩
  obtain ⟨hresult, hdata⟩ := g.sameUnder_expandCognate limit (limit + 1)
    ((g.withLimit limit).levels s.context) name hopened
  obtain ⟨hsame, htags, hchance⟩ := hasks.evaluateToken_eq hunbound expand
  refine ⟨?_, (scopeLaw.generateWith _ name s).alike (scopeLaw.expandWith _ literal s) ?_ ?_⟩
  · rw [hexpand]
    exact hsame.trans hresult
  · rw [hexpand]
    exact (Context.tags_ascend _).trans (htags.trans hdata.tags)
  · rw [hexpand]
    exact hchance.trans hdata.chance

end Grammar

/-- One beast is drawn for the farm whichever way it is asked for, and each of the ways fails if no
level of nesting is left. -/
theorem endsAlike_farm_beast :
    let s : State := .start ⟨∅, Table.insert ∅ "guest" "Ann", [["guest"]]⟩ (.ofArray #[1])
    ((farm.withLimit 2).generateWith "beast" s).1 = .ok "hen" ∧
      ((farm.withLimit 1).generateWith "beast" s).1 =
        .error (.recursionLimitExceeded "beast" 1) ∧
      ∀ literal ∈ ["<beast>", "<!beast>", "<$b:beast>"],
        EndsAlike 3 ((farm.withLimit 2).generateWith "beast" s)
            ((farm.withLimit 3).expandWith literal s) ∧
          EndsAlike 2 ((farm.withLimit 1).generateWith "beast" s)
            ((farm.withLimit 2).expandWith literal s) := by
  intro s
  have hname : Text.isName "beast".toList = true := by decide
  have hlabel : Text.isName "b".toList = true := by decide
  have hends (limit : Int) := farm.endsAlike_expandWith limit s hname hlabel rfl rfl
  exact ⟨rfl, rfl, fun literal hl => ⟨hends 2 literal hl, hends 1 literal hl⟩⟩

end TaggedGrammar
