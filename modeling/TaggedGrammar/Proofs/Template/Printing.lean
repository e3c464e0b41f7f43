import TaggedGrammar.Proofs.Template.Reading

/-!
# Printed templates

Tokens print as a template: brackets in a text behind a backslash, and every other token between
brackets of its own, where a command may be asked for by any of its keywords. Reading a template
and printing tokens are inverse to each other on the lists of tokens that are well formed, which
are just those that some template gives.

## Main statements

* `plain_escape`, `escaped_escape`: escaping is undone by reading, and gives a run.
* `Prints.exists_decomposes`: a printed template falls into the pieces of its tokens.
* `wellFormed_of_parse`: what is read from a template is well formed.
* `parse_prints`: printing and reading are inverse.

## Implementation notes

The printer is a relation, since each command in a template can be asked for by a keyword of its
own choice.
-/

namespace TaggedGrammar

namespace Token

open Text

/-- Whether the token is no text and has parts that a template can write. -/
def IsSubstitution : Token → Prop
  | literal _ => False
  | nonTerminal name => isName name.toList = true
  | sticky name => isName name.toList = true
  | binding name => isName name.toList = true
  | range lower upper => 0 ≤ lower ∧ lower < upper
  | assignment name rule => isName name.toList = true ∧ isName rule.toList = true
  | expression command inner => (∃ c : Command, c.name = command) ∧ inner.IsSubstitution
  | stray _ => False

/-- What a token of a template may be. -/
def WellFormed : Token → Prop
  | literal text => text.toList ≠ []
  | token => token.IsSubstitution

/-- Whether a token may stand directly before another: texts do not meet, and none ends in a
backslash, which would take the bracket behind it into the text. -/
def MayPrecede : Token → Token → Prop
  | literal _, literal _ => False
  | literal text, _ => text.toList.getLast? ≠ some '\\'
  | _, _ => True

theorem IsSubstitution.wellFormed {token : Token} (h : token.IsSubstitution) :
    token.WellFormed := by
  cases token with
  | literal text => exact h.elim
  | _ => exact h

end Token

namespace Template

open Text

/-- The tokens that some template gives. -/
structure WellFormed (tokens : List Token) : Prop where
  nonempty : tokens ≠ []
  wellFormed : ∀ token ∈ tokens, token.WellFormed
  chain : tokens.IsChain Token.MayPrecede

/-! ### The printer -/

/-- Puts a backslash before each bracket. -/
def escape (cs : List Char) : List Char :=
  cs.flatMap fun c => if isBracket c then ['\\', c] else [c]

/-- A number in decimal digits. -/
def decimal (n : Int) : List Char := (toString n).toList

/-- The ways to print a token that is no text, without the brackets around it. -/
inductive Spells : Token → List Char → Prop
  | nonTerminal (name : String) : Spells (.nonTerminal name) name.toList
  | sticky (name : String) : Spells (.sticky name) ('!' :: name.toList)
  | binding (name : String) : Spells (.binding name) ('@' :: name.toList)
  | range (lower upper : Int) :
      Spells (.range lower upper) ('#' :: (decimal lower ++ '-' :: decimal upper))
  | assignment (name rule : String) :
      Spells (.assignment name rule) ('$' :: (name.toList ++ ':' :: rule.toList))
  | expression {keyword : String} {c : Command} {inner : Token} {text : List Char}
      (keyword_mem : (keyword, c) ∈ Command.keywords) (inner_spells : Spells inner text) :
      Spells (.expression c.name inner) ('(' :: (keyword.toList ++ ' ' :: (text ++ [')'])))

/-- The ways to print tokens. -/
inductive Prints : List Token → List Char → Prop
  | nil : Prints [] []
  | literal {text : String} {tokens : List Token} {cs : List Char} (rest : Prints tokens cs) :
      Prints (.literal text :: tokens) (escape text.toList ++ cs)
  | substitution {token : Token} {body : List Char} {tokens : List Token} {cs : List Char}
      (spells : Spells token body) (rest : Prints tokens cs) :
      Prints (token :: tokens) ('<' :: (body ++ '>' :: cs))

/-! ### Texts -/

theorem getLast?_plain (cs : List Char) : (plain cs).getLast? = cs.getLast? := by
  induction cs with
  | nil => rfl
  | cons c cs ih =>
      rw [plain]
      split
      · rename_i h
        rw [ih]
        cases cs with
        | nil => simp at h
        | cons d cs => rw [List.getLast?_cons_cons]
      · rw [List.getLast?_cons, List.getLast?_cons, ih]

theorem plain_ne_nil {cs : List Char} (h : cs ≠ []) : plain cs ≠ [] := by
  have hlast := List.getLast?_isSome.mpr h
  rw [← getLast?_plain] at hlast
  exact List.getLast?_isSome.mp hlast

theorem escape_cons (c : Char) (cs : List Char) :
    escape (c :: cs) = (if isBracket c then ['\\', c] else [c]) ++ escape cs := rfl

theorem escape_concat (cs : List Char) (c : Char) :
    escape (cs ++ [c]) = escape cs ++ if isBracket c then ['\\', c] else [c] := by
  simp [escape]

theorem isBracket_head_escape (cs : List Char) : ∀ c ∈ (escape cs).head?, isBracket c = false := by
  cases cs with
  | nil => simp [escape]
  | cons d cs =>
      intro c hc
      rw [escape_cons] at hc
      by_cases hd : isBracket d = true
      · obtain rfl : '\\' = c := by simpa [hd] using hc
        decide
      · obtain rfl : d = c := by simpa [hd] using hc
        exact Bool.eq_false_iff.mpr hd

/-- Reading takes away the backslashes that escaping has put in, and no others. -/
theorem plain_escape (cs : List Char) : plain (escape cs) = cs := by
  induction cs with
  | nil => rfl
  | cons c cs ih =>
      rw [escape_cons]
      by_cases hc : isBracket c = true
      · have hne : c ≠ '\\' := fun he => absurd hc (by simp [he, isBracket])
        have hpair : plain ('\\' :: c :: escape cs) = plain (c :: escape cs) :=
          if_pos ⟨rfl, hc⟩
        rw [if_pos hc, List.cons_append, List.cons_append, List.nil_append, hpair, plain,
          if_neg fun he => hne he.1, ih]
      · have hhead : (escape cs).head?.any isBracket = false := by
          cases hh : (escape cs).head? with
          | none => rfl
          | some d => exact isBracket_head_escape cs d hh
        rw [if_neg hc, List.cons_append, List.nil_append, plain,
          if_neg fun he => absurd he.2 (by simp [hhead]), ih]

theorem escaped_escape (cs : List Char) : Escaped (escape cs) := by
  induction cs using List.reverseRecOn with
  | nil => exact escaped_nil
  | append_singleton cs c ih =>
      rw [escape_concat]
      by_cases hc : isBracket c = true
      · have hbackslash : Escaped (escape cs ++ ['\\']) :=
          escaped_concat_iff.mpr ⟨ih, fun he => absurd he (by decide)⟩
        have hpair : Escaped ((escape cs ++ ['\\']) ++ [c]) :=
          escaped_concat_iff.mpr ⟨hbackslash, fun _ => List.getLast?_concat⟩
        rwa [if_pos hc, ← List.singleton_append, ← List.append_assoc]
      · rw [if_neg hc]
        exact escaped_concat_iff.mpr ⟨ih, fun he => absurd he hc⟩

theorem wellFormed_run_escape {cs : List Char} (h : cs ≠ []) :
    (Piece.run (escape cs)).WellFormed := by
  refine ⟨fun hnil => h ?_, escaped_escape cs⟩
  rw [← plain_escape cs, hnil]
  rfl

/-! ### Numbers -/

theorem decimal_natCast (n : Nat) : decimal n = Nat.toDigits 10 n := by
  have h : toString (n : Int) = toString n := rfl
  rw [decimal, h, Nat.toString_eq_ofList_toDigits, String.toList_ofList]

theorem isNumeral_decimal (n : Nat) : IsNumeral (decimal n) := by
  rw [decimal_natCast]
  exact ⟨Nat.toDigits_ne_nil, fun c hc => Nat.isDigit_of_mem_toDigits (by decide) (by decide) hc⟩

theorem numeralValue_decimal (n : Nat) : numeralValue (decimal n) = n := by
  have h := Nat.ofDigitChars_ten_toDigits (n := n)
  rw [Nat.ofDigitChars_eq_foldl] at h
  rw [decimal_natCast, ← foldl_digits]
  exact h

/-! ### Tokens and pieces -/

theorem Body.isSubstitution_token {b : Body} (h : b.WellFormed) : b.token.IsSubstitution := by
  induction b with
  | name n | binding n | sticky n =>
      simpa [Body.token, Token.IsSubstitution] using (show isName n = true from h)
  | range lower upper => exact ⟨Int.natCast_nonneg _, Int.ofNat_lt.mpr h.2.2⟩
  | assignment n rule =>
      simpa [Body.token, Token.IsSubstitution] using
        (show isName n = true ∧ isName rule = true from h)
  | command keyword c before inner after ih => exact ⟨⟨c, rfl⟩, ih h.2.2.1⟩

theorem Piece.wellFormed_token {p : Piece} (h : p.WellFormed) : p.token.WellFormed := by
  cases p with
  | run cs => simpa [Piece.token, Token.WellFormed] using plain_ne_nil h.1
  | substitution b => exact (Body.isSubstitution_token h).wellFormed

/-- Pieces may follow each other just where their tokens may. -/
theorem Piece.mayPrecede_token {p q : Piece} :
    p.token.MayPrecede q.token ↔ p.MayPrecede q := by
  cases p with
  | substitution b => cases b <;> exact Iff.rfl
  | run cs =>
      have hlast : (String.ofList (plain cs)).toList.getLast? ≠ some '\\' ↔
          cs.getLast? ≠ some '\\' := by
        rw [String.toList_ofList, getLast?_plain]
      cases q with
      | run ds => exact Iff.rfl
      | substitution b => cases b <;> exact hlast

theorem Spells.exists_body {token : Token} {text : List Char} (h : Spells token text)
    (ht : token.IsSubstitution) : ∃ b : Body, b.WellFormed ∧ b.text = text ∧ b.token = token := by
  induction h with
  | nonTerminal name => exact ⟨.name name.toList, ht, rfl, by simp [Body.token]⟩
  | sticky name => exact ⟨.sticky name.toList, ht, rfl, by simp [Body.token]⟩
  | binding name => exact ⟨.binding name.toList, ht, rfl, by simp [Body.token]⟩
  | range lower upper =>
      obtain ⟨hlower, hlt⟩ := ht
      obtain ⟨l, rfl⟩ := Int.eq_ofNat_of_zero_le hlower
      obtain ⟨u, rfl⟩ := Int.eq_ofNat_of_zero_le (hlower.trans hlt.le)
      refine ⟨.range (decimal l) (decimal u),
        ⟨isNumeral_decimal l, isNumeral_decimal u, ?_⟩, rfl, ?_⟩
      · rw [numeralValue_decimal, numeralValue_decimal]
        exact Int.ofNat_lt.mp hlt
      · rw [Body.token, numeralValue_decimal, numeralValue_decimal]
  | assignment name rule =>
      exact ⟨.assignment name.toList rule.toList, ht, rfl, by simp [Body.token]⟩
  | @expression keyword c inner text hk _ ih =>
      obtain ⟨b, hb, rfl, rfl⟩ := ih ht.2
      refine ⟨.command keyword.toList c [] b [], ⟨by simpa using hk, by simp, hb, by simp⟩, ?_, rfl⟩
      simp [Body.text]

/-- A printed template falls into the pieces of its tokens. -/
theorem Prints.exists_decomposes {tokens : List Token} {cs : List Char} (h : Prints tokens cs)
    (hwell : ∀ token ∈ tokens, token.WellFormed) (hchain : tokens.IsChain Token.MayPrecede) :
    ∃ ps, Decomposes ps cs ∧ tokens = ps.map Piece.token := by
  suffices hpieces : ∃ ps : List Piece, (∀ p ∈ ps, p.WellFormed) ∧ ps.flatMap Piece.text = cs ∧
      tokens = ps.map Piece.token by
    obtain ⟨ps, hps, htext, rfl⟩ := hpieces
    have hps' := (List.isChain_map Piece.token).mp hchain
    exact ⟨ps, ⟨hps, hps'.imp fun _ _ => Piece.mayPrecede_token.mp, htext⟩, rfl⟩
  clear hchain
  induction h with
  | nil => exact ⟨[], by simp, rfl, rfl⟩
  | @literal text tokens cs _ ih =>
      obtain ⟨hfirst, hrest⟩ := List.forall_mem_cons.mp hwell
      obtain ⟨ps, hps, rfl, rfl⟩ := ih hrest
      refine ⟨.run (escape text.toList) :: ps,
        List.forall_mem_cons.mpr ⟨wellFormed_run_escape hfirst, hps⟩, rfl, ?_⟩
      rw [List.map_cons, Piece.token, plain_escape, String.ofList_toList]
  | @substitution token body tokens cs hspells _ ih =>
      obtain ⟨hfirst, hrest⟩ := List.forall_mem_cons.mp hwell
      obtain ⟨ps, hps, rfl, rfl⟩ := ih hrest
      have htoken : token.IsSubstitution := by
        cases hspells <;> exact hfirst
      obtain ⟨b, hb, rfl, rfl⟩ := hspells.exists_body htoken
      exact ⟨.substitution b :: ps, List.forall_mem_cons.mpr ⟨hb, hps⟩, by simp [Piece.text], rfl⟩

/-! ### Printing and reading -/

theorem exists_spells {token : Token} (h : token.IsSubstitution) : ∃ text, Spells token text := by
  have hkeyword (c : Command) : ∃ keyword, (keyword, c) ∈ Command.keywords := by
    cases c <;> simp [Command.keywords]
  induction token with
  | literal _ | stray _ => exact h.elim
  | nonTerminal name => exact ⟨_, .nonTerminal name⟩
  | sticky name => exact ⟨_, .sticky name⟩
  | binding name => exact ⟨_, .binding name⟩
  | range lower upper => exact ⟨_, .range lower upper⟩
  | assignment name rule => exact ⟨_, .assignment name rule⟩
  | expression command inner ih =>
      obtain ⟨⟨c, rfl⟩, hinner⟩ := h
      obtain ⟨text, htext⟩ := ih hinner
      obtain ⟨keyword, hk⟩ := hkeyword c
      exact ⟨_, .expression hk htext⟩

/-- Well-formed tokens can be printed. -/
theorem exists_prints {tokens : List Token} (h : ∀ token ∈ tokens, token.WellFormed) :
    ∃ cs, Prints tokens cs := by
  induction tokens with
  | nil => exact ⟨[], .nil⟩
  | cons token tokens ih =>
      obtain ⟨hfirst, hrest⟩ := List.forall_mem_cons.mp h
      obtain ⟨cs, hcs⟩ := ih hrest
      by_cases htoken : token.IsSubstitution
      · obtain ⟨body, hbody⟩ := exists_spells htoken
        exact ⟨_, .substitution hbody hcs⟩
      · cases token with
        | literal text => exact ⟨_, .literal hcs⟩
        | _ => exact absurd hfirst htoken

theorem wellFormed_of_parse {template : String} {tokens : List Token}
    (h : parse template = .ok tokens) : WellFormed tokens := by
  obtain ⟨ps, hne, hps, rfl⟩ := exists_decomposes_of_parseChars h
  refine ⟨by simpa using hne, ?_, ?_⟩
  · intro token ht
    obtain ⟨p, hp, rfl⟩ := List.mem_map.mp ht
    exact Piece.wellFormed_token (hps.wellFormed p hp)
  · exact (List.isChain_map Piece.token).mpr
      (hps.chain.imp fun _ _ => Piece.mayPrecede_token.mpr)

theorem parse_of_prints {tokens : List Token} (h : WellFormed tokens) {template : String}
    (hp : Prints tokens template.toList) : parse template = .ok tokens := by
  obtain ⟨ps, hps, rfl⟩ := hp.exists_decomposes h.wellFormed h.chain
  refine parseChars_of_decomposes ?_ hps
  simpa using h.nonempty

/-- Reading gives exactly the well-formed lists of tokens. Such a list can be printed, and
however it is printed, reading gives it back; so a template that is read and printed again is
read as before. -/
theorem parse_prints :
    (∀ tokens, WellFormed tokens → (∃ template : String, Prints tokens template.toList) ∧
      ∀ template : String, Prints tokens template.toList → parse template = .ok tokens) ∧
    ∀ (template : String) (tokens : List Token), parse template = .ok tokens →
      WellFormed tokens ∧
      ∀ again : String, Prints tokens again.toList → parse again = parse template := by
  constructor
  · intro tokens h
    obtain ⟨cs, hcs⟩ := exists_prints h.wellFormed
    exact ⟨⟨String.ofList cs, by rwa [String.toList_ofList]⟩, fun _ => parse_of_prints h⟩
  · intro template tokens h
    have hwell := wellFormed_of_parse h
    exact ⟨hwell, fun again hagain => (parse_of_prints hwell hagain).trans h.symm⟩

/-- The text holds a backslash and a bracket, and the commands have short and long keywords. -/
theorem parse_prints_nested :
    let tokens : List Token :=
      [.literal "\\<", .expression "titlecase" (.expression "article" (.range 0 10))]
    let template := "\\\\<<(title (an #0-10))>"
    WellFormed tokens ∧ Prints tokens template.toList ∧ parse template = .ok tokens := by
  intro tokens template
  have hwell : WellFormed tokens := by
    refine ⟨List.cons_ne_nil _ _, ?_, ?_⟩
    · simp only [tokens, List.forall_mem_cons, List.not_mem_nil, false_implies, implies_true,
        and_true]
      have htext : "\\<".toList ≠ [] := by decide
      exact ⟨htext, ⟨.titlecase, rfl⟩, ⟨.article, rfl⟩, by decide, by decide⟩
    · have hlast : "\\<".toList.getLast? ≠ some '\\' := by decide
      exact .cons_cons hlast (.singleton _)
  have hprints : Prints tokens template.toList := by
    have hrange : Spells (.range 0 10) "#0-10".toList := .range 0 10
    have harticle : Spells (.expression "article" (.range 0 10)) "(an #0-10)".toList :=
      Spells.expression (show ("an", Command.article) ∈ Command.keywords by decide) hrange
    have htitle := Spells.expression
      (show ("title", Command.titlecase) ∈ Command.keywords by decide) harticle
    have htemplate : template.toList = escape "\\<".toList ++
        '<' :: ('(' :: ("title".toList ++ ' ' :: ("(an #0-10)".toList ++ [')'])) ++ ['>']) := by
      decide
    exact htemplate ▸ .literal (.substitution htitle .nil)
  exact ⟨hwell, hprints, (parse_prints.1 tokens hwell).2 template hprints⟩

end Template

end TaggedGrammar
