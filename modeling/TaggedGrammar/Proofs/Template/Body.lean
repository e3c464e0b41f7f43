import Mathlib.Data.Nat.Digits.Defs
import TaggedGrammar.Proofs.Answer
import TaggedGrammar.Proofs.Table
import TaggedGrammar.Proofs.Text.Name
import TaggedGrammar.Template.Substitution

/-!
# Bodies of substitutions

A `Body` is a substitution taken apart: which form it has, and the characters of each part.
`Body.text` puts the parts together, `Body.WellFormed` says which parts a body may have, and
`Body.token` says what the body stands for. Reading a body succeeds on exactly the texts of
well-formed bodies, and the parts can be found in the text again.

## Main statements

* `substitution_eq_ok_iff`: what is read, and as which token.
* `plainSubstitution_eq_error`, `command_eq_error`: why a body cannot be read.
* `Body.text_injective`: a text is that of at most one well-formed body.

## Implementation notes

The reader of a command only compares the numbers of parentheses before it looks for the
keyword. That these numbers are equal in the text of every well-formed body is
`Body.count_parens`.
-/

namespace TaggedGrammar.Template

open Text

/-! ### The grammar -/

/-- A substitution taken apart. -/
inductive Body where
  | name (name : List Char)
  | binding (name : List Char)
  | sticky (name : List Char)
  | range (lower upper : List Char)
  | assignment (name rule : List Char)
  /-- A keyword, the command that it asks for, and a body between two stretches of blanks. -/
  | command (keyword : List Char) (command : Command) (before : List Char) (inner : Body)
    (after : List Char)

/-- One or more ASCII digits. -/
def IsNumeral (cs : List Char) : Prop := cs ≠ [] ∧ ∀ c ∈ cs, c.isDigit = true

/-- The number that decimal digits write, the last of them the ones. -/
def numeralValue (cs : List Char) : Nat :=
  Nat.ofDigits 10 (cs.reverse.map fun c => c.toNat - '0'.toNat)

namespace Body

/-- The characters between the brackets. -/
def text : Body → List Char
  | name n => n
  | binding n => '@' :: n
  | sticky n => '!' :: n
  | range lower upper => '#' :: (lower ++ '-' :: upper)
  | assignment n rule => '$' :: (n ++ ':' :: rule)
  | command keyword _ before inner after =>
    '(' :: (keyword ++ ' ' :: (before ++ inner.text ++ after ++ [')']))

/-- What the parts of a body may be. -/
def WellFormed : Body → Prop
  | name n => isName n = true
  | binding n => isName n = true
  | sticky n => isName n = true
  | range lower upper =>
    IsNumeral lower ∧ IsNumeral upper ∧ numeralValue lower < numeralValue upper
  | assignment n rule => isName n = true ∧ isName rule = true
  | command keyword c before inner after =>
    (String.ofList keyword, c) ∈ Command.keywords ∧ (∀ c ∈ before, isBlank c = true) ∧
      inner.WellFormed ∧ ∀ c ∈ after, isBlank c = true

/-- The token that a body stands for. -/
def token : Body → Token
  | name n => .nonTerminal (String.ofList n)
  | binding n => .binding (String.ofList n)
  | sticky n => .sticky (String.ofList n)
  | range lower upper => .range (numeralValue lower) (numeralValue upper)
  | assignment n rule => .assignment (String.ofList n) (String.ofList rule)
  | command _ c _ inner _ => .expression c.name inner.token

end Body

/-! ### Numerals -/

theorem foldl_digits (cs : List Char) :
    cs.foldl (fun n c => 10 * n + (c.toNat - 48)) 0 = numeralValue cs := by
  unfold numeralValue
  rw [Nat.ofDigits_eq_foldr, List.foldr_map, List.foldr_reverse]
  congr 1
  funext n c
  exact Nat.add_comm _ _

theorem decimal?_eq_some_iff {cs : List Char} {n : Nat} :
    decimal? cs = some n ↔ IsNumeral cs ∧ numeralValue cs = n := by
  have hdigits : (!cs.isEmpty && cs.all Char.isDigit) = true ↔ IsNumeral cs := by
    simp [IsNumeral, List.all_eq_true]
  unfold decimal?
  rw [foldl_digits]
  split
  · rename_i h
    rw [Option.some.injEq]
    exact (and_iff_right (hdigits.mp h)).symm
  · rename_i h
    exact ⟨fun he => (nomatch he), fun he => absurd (hdigits.mpr he.1) h⟩

theorem IsNumeral.not_mem {cs : List Char} (h : IsNumeral cs) : '-' ∉ cs := by
  intro hm
  exact absurd (h.2 '-' hm) (by decide)

theorem IsNumeral.isName {cs : List Char} (h : IsNumeral cs) : Text.isName cs = true :=
  isName_iff.mpr ⟨h.1, fun c hc => isNameChar_of_isDigit (h.2 c hc)⟩

theorem bounds?_eq_some_iff {cs : List Char} {lower upper : Nat} :
    bounds? cs = some (lower, upper) ↔ ∃ ds es, cs = ds ++ '-' :: es ∧ IsNumeral ds ∧
      IsNumeral es ∧ numeralValue ds = lower ∧ numeralValue es = upper ∧ lower < upper := by
  unfold bounds?
  constructor
  · intro h
    cases hl : decimal? (cs.takeWhile (· != '-')) with
    | none => simp [hl] at h
    | some l =>
        cases hr : cs.dropWhile (· != '-') with
        | nil => simp [hl, hr] at h
        | cons d rest =>
            simp only [hl, hr, Option.bind_eq_some_iff] at h
            obtain ⟨u, hu, h⟩ := h
            split at h
            · cases h
              obtain ⟨hnl, hvl⟩ := decimal?_eq_some_iff.mp hl
              obtain ⟨hnu, hvu⟩ := decimal?_eq_some_iff.mp hu
              exact ⟨_, rest, eq_append_of_dropWhile hr, hnl, hnu, hvl, hvu, by assumption⟩
            · cases h
  · rintro ⟨ds, es, rfl, hds, hes, hl, hu, hlt⟩
    rw [takeWhile_append_cons hds.not_mem, dropWhile_append_cons hds.not_mem,
      decimal?_eq_some_iff.mpr ⟨hds, hl⟩]
    simp [decimal?_eq_some_iff.mpr ⟨hes, hu⟩, hlt]

theorem isName_of_bounds {ds es : List Char} (hds : IsNumeral ds) (hes : IsNumeral es) :
    isName (ds ++ '-' :: es) = true := by
  rw [isName_iff]
  refine ⟨by simp, ?_⟩
  intro c hc
  rcases List.mem_append.mp hc with hc | hc
  · exact isNameChar_of_isDigit (hds.2 c hc)
  · rcases List.mem_cons.mp hc with rfl | hc
    · decide
    · exact isNameChar_of_isDigit (hes.2 c hc)

/-! ### Bodies that are no commands -/

theorem splitColon_eq_some_iff {cs name rule : List Char} :
    splitColon cs = some (name, rule) ↔ cs = name ++ ':' :: rule ∧ ':' ∉ name := by
  unfold splitColon
  constructor
  · intro h
    cases hr : cs.dropWhile (· != ':') with
    | nil => simp [hr] at h
    | cons d rest =>
        simp only [hr, Option.some.injEq, Prod.mk.injEq] at h
        obtain ⟨rfl, rfl⟩ := h
        exact ⟨eq_append_of_dropWhile hr, not_mem_takeWhile⟩
  · rintro ⟨rfl, hn⟩
    simp only [dropWhile_append_cons hn, takeWhile_append_cons hn]

theorem isAssignment_iff {cs : List Char} : isAssignment cs = true ↔
    ∃ name rule, splitColon cs = some (name, rule) ∧ isName name = true ∧
      isName rule = true := by
  unfold isAssignment
  cases splitColon cs with
  | none => simp
  | some parts =>
      obtain ⟨name, rule⟩ := parts
      simp [and_assoc]

theorem range_eq_ok_iff {cs : List Char} {first last : Nat} {token : Token} :
    range cs first last = .ok token ↔ ∃ ds es, cs = ds ++ '-' :: es ∧ IsNumeral ds ∧
      IsNumeral es ∧ numeralValue ds < numeralValue es ∧
      token = .range (numeralValue ds) (numeralValue es) := by
  unfold range
  constructor
  · intro h
    cases hb : bounds? cs with
    | none => simp [hb] at h
    | some bounds =>
        obtain ⟨lower, upper⟩ := bounds
        simp only [hb, Except.ok.injEq] at h
        obtain ⟨ds, es, hcs, hds, hes, rfl, rfl, hlt⟩ := bounds?_eq_some_iff.mp hb
        exact ⟨ds, es, hcs, hds, hes, hlt, h.symm⟩
  · rintro ⟨ds, es, hcs, hds, hes, hlt, rfl⟩
    rw [bounds?_eq_some_iff.mpr ⟨ds, es, hcs, hds, hes, rfl, rfl, hlt⟩]

theorem plainSubstitution_eq_ok {body : List Char} {first : Nat} {token : Token}
    (h : plainSubstitution body first = .ok token) :
    ∃ b : Body, b.WellFormed ∧ b.text = body ∧ b.token = token := by
  unfold plainSubstitution at h
  split at h
  · cases h
  · rename_i rest
    split at h
    · rename_i ha
      obtain ⟨name, rule, hs, hn, hr⟩ := isAssignment_iff.mp ha
      simp only [assignment, hs, Except.mapError] at h
      refine ⟨.assignment name rule, ⟨hn, hr⟩, ?_, Except.ok.inj h⟩
      rw [(splitColon_eq_some_iff.mp hs).1]
      rfl
    · cases h
  · rename_i rest
    split at h
    · exact ⟨.binding rest, by assumption, rfl, Except.ok.inj h⟩
    · cases h
  · rename_i rest
    split at h
    · exact ⟨.sticky rest, by assumption, rfl, Except.ok.inj h⟩
    · cases h
  · rename_i rest
    split at h
    · obtain ⟨ds, es, rfl, hds, hes, hlt, rfl⟩ := range_eq_ok_iff.mp h
      exact ⟨.range ds es, ⟨hds, hes, hlt⟩, rfl, rfl⟩
    · cases h
  · split at h
    · exact ⟨.name body, by assumption, rfl, Except.ok.inj h⟩
    · cases h

/-- A name, with or without one of the sigils `@`, `!` and `#` before it. -/
def IsSigiledName (cs : List Char) : Prop :=
  isName cs = true ∨ ∃ sigil name, (sigil = '@' ∨ sigil = '!' ∨ sigil = '#') ∧
    cs = sigil :: name ∧ isName name = true

/-- An assignment `$name:rule` of a rule to a name. -/
def IsAssignmentText (cs : List Char) : Prop :=
  ∃ name rule, (Body.assignment name rule).WellFormed ∧ cs = (Body.assignment name rule).text

theorem isSigiledName_cons_iff {c : Char} {cs : List Char} (hc : isNameChar c = false) :
    IsSigiledName (c :: cs) ↔ (c = '@' ∨ c = '!' ∨ c = '#') ∧ isName cs = true := by
  constructor
  · rintro (hn | ⟨sigil, name, hs, he, hn⟩)
    · exact absurd List.mem_cons_self (not_mem_of_isName hn hc)
    · obtain ⟨rfl, rfl⟩ := List.cons.inj he
      exact ⟨hs, hn⟩
  · rintro ⟨hs, hn⟩
    exact Or.inr ⟨c, cs, hs, rfl, hn⟩

theorem not_isAssignmentText_of_head? {cs : List Char} (h : cs.head? ≠ some '$') :
    ¬IsAssignmentText cs := by
  rintro ⟨name, rule, -, rfl⟩
  exact h rfl

theorem isAssignment_of_text {cs : List Char} (h : IsAssignmentText ('$' :: cs)) :
    isAssignment cs = true := by
  obtain ⟨name, rule, ⟨hn, hr⟩, he⟩ := h
  have hs : splitColon cs = some (name, rule) :=
    splitColon_eq_some_iff.mpr ⟨(List.cons.inj he).2, not_mem_of_isName hn (by decide)⟩
  exact isAssignment_iff.mpr ⟨name, rule, hs, hn, hr⟩

theorem range_eq_error {cs : List Char} {first last : Nat} {e : ParseError}
    (h : range cs first last = .error e) : e = .within .invalidRange first last ∧
      ∀ lower upper, (Body.range lower upper).WellFormed →
        '#' :: cs ≠ (Body.range lower upper).text := by
  constructor
  · unfold range at h
    split at h
    · cases h
    · exact (Except.error.inj h).symm
  · rintro lower upper ⟨hl, hu, hlt⟩ he
    have hok : range cs first last = .ok (.range (numeralValue lower) (numeralValue upper)) :=
      range_eq_ok_iff.mpr ⟨lower, upper, (List.cons.inj he).2, hl, hu, hlt, rfl⟩
    rw [h] at hok
    cases hok

/-- Why a body that is no command cannot be read. -/
theorem plainSubstitution_eq_error {body : List Char} {first : Nat} {e : ParseError}
    (h : plainSubstitution body first = .error e) :
    (e = .within .zeroLengthSubstitution first (first + 1) ∧ body = []) ∨
    (e = .within .invalidName first (first + body.length) ∧ body ≠ [] ∧ ¬IsSigiledName body ∧
      ¬IsAssignmentText body) ∨
    (e = .within .invalidRange first (first + body.length) ∧
      (∃ bounds, body = '#' :: bounds ∧ isName bounds = true) ∧
      ∀ lower upper, (Body.range lower upper).WellFormed →
        body ≠ (Body.range lower upper).text) := by
  have hsigil {c : Char} {rest : List Char} (hc : isNameChar c = false) (hd : c ≠ '$')
      (hn : ¬isName rest = true) : ¬IsSigiledName (c :: rest) ∧ ¬IsAssignmentText (c :: rest) :=
    ⟨fun hs => hn ((isSigiledName_cons_iff hc).mp hs).2,
      not_isAssignmentText_of_head? fun he => hd (Option.some.inj he)⟩
  unfold plainSubstitution at h
  split at h
  · exact Or.inl ⟨(Except.error.inj h).symm, rfl⟩
  · rename_i rest
    split at h
    · rename_i ha
      obtain ⟨name, rule, hs, -, -⟩ := isAssignment_iff.mp ha
      simp only [assignment, hs, Except.mapError] at h
      cases h
    · rename_i ha
      refine Or.inr (Or.inl ⟨(Except.error.inj h).symm, List.cons_ne_nil _ _, ?_,
        mt isAssignment_of_text ha⟩)
      rw [isSigiledName_cons_iff (by decide)]
      exact fun hs => absurd hs.1 (by decide)
  · split at h
    · cases h
    · exact Or.inr (Or.inl ⟨(Except.error.inj h).symm, List.cons_ne_nil _ _,
        hsigil (by decide) (by decide) ‹_›⟩)
  · split at h
    · cases h
    · exact Or.inr (Or.inl ⟨(Except.error.inj h).symm, List.cons_ne_nil _ _,
        hsigil (by decide) (by decide) ‹_›⟩)
  · rename_i rest
    split at h
    · rename_i hn
      obtain ⟨he, hne⟩ := range_eq_error h
      exact Or.inr (Or.inr ⟨he, ⟨rest, rfl, hn⟩, hne⟩)
    · exact Or.inr (Or.inl ⟨(Except.error.inj h).symm, List.cons_ne_nil _ _,
        hsigil (by decide) (by decide) ‹_›⟩)
  · rename_i hempty hdollar hat hbang hhash
    split at h
    · cases h
    · rename_i hn
      refine Or.inr (Or.inl ⟨(Except.error.inj h).symm, hempty, ?_, ?_⟩)
      · rintro (hn' | ⟨sigil, name, rfl | rfl | rfl, rfl, -⟩)
        · exact hn hn'
        · exact hat name rfl
        · exact hbang name rfl
        · exact hhash name rfl
      · rintro ⟨name, rule, -, rfl⟩
        exact hdollar _ rfl

/-! ### The characters of a body -/

theorem ofKeyword?_eq_some_iff {s : String} {c : Command} :
    Command.ofKeyword? s = some c ↔ (s, c) ∈ Command.keywords :=
  Table.lookup_eq_some_iff (by decide)

/-- Keywords are names. -/
theorem isName_of_mem_keywords {keyword : List Char} {c : Command}
    (h : (String.ofList keyword, c) ∈ Command.keywords) : isName keyword = true := by
  have hnames : ∀ p ∈ Command.keywords, isName p.1.toList = true := by decide
  simpa using hnames _ h

/-- The characters of a body that are neither name characters nor blanks. -/
def bodyMarks : List Char := ['(', ')', '@', '!', '#', '$', ':']

namespace Body

theorem mem_text {b : Body} (h : b.WellFormed) {c : Char} (hc : c ∈ b.text) :
    isNameChar c = true ∨ isBlank c = true ∨ c ∈ bodyMarks := by
  have hname {n : List Char} (hn : isName n = true) (hm : c ∈ n) : isNameChar c = true :=
    (isName_iff.mp hn).2 c hm
  have hnumeral {n : List Char} (hn : IsNumeral n) (hm : c ∈ n) : isNameChar c = true :=
    isNameChar_of_isDigit (hn.2 c hm)
  induction b with
  | name n => exact Or.inl (hname h hc)
  | binding n | sticky n =>
      rcases List.mem_cons.mp hc with rfl | hc
      · exact Or.inr (Or.inr (by decide))
      · exact Or.inl (hname h hc)
  | range lower upper =>
      simp only [text, List.mem_cons, List.mem_append] at hc
      rcases hc with rfl | hc | rfl | hc
      · exact Or.inr (Or.inr (by decide))
      · exact Or.inl (hnumeral h.1 hc)
      · exact Or.inl (by decide)
      · exact Or.inl (hnumeral h.2.1 hc)
  | assignment n rule =>
      simp only [text, List.mem_cons, List.mem_append] at hc
      rcases hc with rfl | hc | rfl | hc
      · exact Or.inr (Or.inr (by decide))
      · exact Or.inl (hname h.1 hc)
      · exact Or.inr (Or.inr (by decide))
      · exact Or.inl (hname h.2 hc)
  | command keyword command before inner after ih =>
      obtain ⟨hk, hb, hi, ha⟩ := h
      simp only [text, List.mem_cons, List.mem_append, List.not_mem_nil, or_false] at hc
      rcases hc with rfl | hc | rfl | ((hc | hc) | hc) | rfl
      · exact Or.inr (Or.inr (by decide))
      · exact Or.inl (hname (isName_of_mem_keywords hk) hc)
      · exact Or.inr (Or.inl (by decide))
      · exact Or.inr (Or.inl (hb c hc))
      · exact ih hi hc
      · exact Or.inr (Or.inl (ha c hc))
      · exact Or.inr (Or.inr (by decide))

/-- Neither a bracket nor a backslash stands in a body. -/
theorem not_mem_text {b : Body} (h : b.WellFormed) {c : Char}
    (hc : c = '<' ∨ c = '>' ∨ c = '\\') : c ∉ b.text := by
  intro hm
  rcases mem_text h hm with hn | hb | hmark
  · rcases hc with rfl | rfl | rfl <;> exact absurd hn (by decide)
  · rcases hc with rfl | rfl | rfl <;> exact absurd hb (by decide)
  · rcases hc with rfl | rfl | rfl <;> exact absurd hmark (by decide)

theorem tight_text {b : Body} (h : b.WellFormed) : Tight b.text := by
  cases b with
  | name n => exact tight_of_isName h
  | binding n | sticky n => exact tight_cons_append (by decide) [] (tight_of_isName h)
  | range lower upper =>
      have hu : Tight upper := tight_of_isName h.2.1.isName
      simpa [text] using tight_cons_append (c := '#') (by decide) (lower ++ ['-']) hu
  | assignment n rule =>
      have hr : Tight rule := tight_of_isName h.2
      simpa [text] using tight_cons_append (c := '$') (by decide) (n ++ [':']) hr
  | command keyword command before inner after =>
      simpa [text] using tight_cons_append (c := '(') (by decide)
        (keyword ++ ' ' :: (before ++ inner.text ++ after)) (tight_singleton (by decide))

/-- As many parentheses are closed in a body as are opened. -/
theorem count_parens {b : Body} (h : b.WellFormed) : b.text.count '(' = b.text.count ')' := by
  have hzero {n : List Char} {c : Char} (hn : isName n = true) (hc : isNameChar c = false) :
      n.count c = 0 := List.count_eq_zero.mpr (not_mem_of_isName hn hc)
  have hblank {n : List Char} {c : Char} (hn : ∀ d ∈ n, isBlank d = true)
      (hc : isBlank c = false) : n.count c = 0 :=
    List.count_eq_zero.mpr fun hm => by simp [hn c hm] at hc
  have hopen : isNameChar '(' = false := by decide
  have hclose : isNameChar ')' = false := by decide
  induction b with
  | name n => simp [text, hzero h hopen, hzero h hclose]
  | binding n | sticky n => simp [text, hzero h hopen, hzero h hclose]
  | range lower upper =>
      simp [text, hzero h.1.isName hopen, hzero h.1.isName hclose, hzero h.2.1.isName hopen,
        hzero h.2.1.isName hclose]
  | assignment n rule =>
      simp [text, hzero h.1 hopen, hzero h.1 hclose, hzero h.2 hopen, hzero h.2 hclose]
  | command keyword command before inner after ih =>
      obtain ⟨hk, hb, hi, ha⟩ := h
      have hkeyword := isName_of_mem_keywords hk
      simp [text, hzero hkeyword hopen, hzero hkeyword hclose, hblank hb (c := '(') (by decide),
        hblank hb (c := ')') (by decide), hblank ha (c := '(') (by decide),
        hblank ha (c := ')') (by decide), ih hi]

end Body

/-! ### Reading a body -/

theorem plainSubstitution_name {n : List Char} (h : isName n = true) (first : Nat) :
    plainSubstitution n first = .ok (.nonTerminal (String.ofList n)) := by
  have hne {c : Char} (hc : isNameChar c = false) (cs : List Char) : n ≠ c :: cs :=
    fun he => not_mem_of_isName h hc (he ▸ List.mem_cons_self)
  unfold plainSubstitution
  split
  · exact absurd rfl (isName_iff.mp h).1
  · exact absurd rfl (hne (by decide) _)
  · exact absurd rfl (hne (by decide) _)
  · exact absurd rfl (hne (by decide) _)
  · exact absurd rfl (hne (by decide) _)
  · exact if_pos h

theorem plainSubstitution_text {b : Body} (h : b.WellFormed) (hb : b.text.head? ≠ some '(')
    (first : Nat) : plainSubstitution b.text first = .ok b.token := by
  cases b with
  | name n => exact plainSubstitution_name h first
  | binding n => exact if_pos h
  | sticky n => exact if_pos h
  | range lower upper =>
      obtain ⟨hl, hu, hlt⟩ := h
      exact (if_pos (isName_of_bounds hl hu)).trans
        (range_eq_ok_iff.mpr ⟨lower, upper, rfl, hl, hu, hlt, rfl⟩)
  | assignment n rule =>
      have hs : splitColon (n ++ ':' :: rule) = some (n, rule) :=
        splitColon_eq_some_iff.mpr ⟨rfl, not_mem_of_isName h.1 (by decide)⟩
      have ha : isAssignment (n ++ ':' :: rule) = true :=
        isAssignment_iff.mpr ⟨n, rule, hs, h.1, h.2⟩
      refine (if_pos ha).trans ?_
      rw [assignment, hs]
      rfl
  | command keyword command before inner after => exact absurd rfl hb

theorem eq_parenthesized {body : List Char} (hfirst : body.head? = some '(')
    (hlast : body.getLast? = some ')') : ∃ content, body = '(' :: (content ++ [')']) := by
  obtain ⟨front, rfl⟩ := List.getLast?_eq_some_iff.mp hlast
  cases front with
  | nil => cases hfirst
  | cons c content =>
      obtain rfl : c = '(' := by simpa using hfirst
      exact ⟨content, rfl⟩

/-- The body behind a command is what stands behind the first space, without the blanks around
it. -/
theorem exists_rest_of_command {body : List Char} {first : Nat} {parts : CommandParts}
    (hb : body.head? = some '(') (h : command body first = .ok parts) :
    ∃ keyword rest, (String.ofList keyword, parts.command) ∈ Command.keywords ∧
      body = '(' :: (keyword ++ ' ' :: (rest ++ [')'])) ∧ parts.inner = trim rest ∧
      parts.first = first + keyword.length + (rest.takeWhile isBlank).length + 2 := by
  unfold command at h
  simp only at h
  split at h
  · cases h
  · split at h
    · cases h
    · rename_i hlast
      obtain ⟨content, rfl⟩ := eq_parenthesized hb (not_not.mp hlast)
      simp only [List.tail_cons, List.dropLast_concat] at h
      cases hr : content.dropWhile (· != ' ') with
      | nil => simp [hr] at h
      | cons d rest =>
          obtain rfl := eq_of_dropWhile hr
          simp only [hr, List.isEmpty_cons, Bool.false_eq_true, if_false] at h
          split at h
          · cases h
          · rename_i c hk
            cases h
            refine ⟨content.takeWhile (· != ' '), rest, ofKeyword?_eq_some_iff.mp hk, ?_,
              trim_cons_of_isBlank (by decide) rest, ?_⟩
            · have hcontent := congrArg (· ++ [')']) (eq_append_of_dropWhile hr)
              simpa using hcontent
            · have hlength := length_takeWhile_add_length_trimLeft rest
              have hspace := trimLeft_cons_of_isBlank (c := ' ') (by decide) rest
              simp only [hspace, List.length_cons]
              omega

/-- The parts of a command that can be read, and where the body behind it begins. -/
theorem command_eq_ok {body : List Char} {first : Nat} {parts : CommandParts}
    (hb : body.head? = some '(') (h : command body first = .ok parts) :
    ∃ keyword before after, (String.ofList keyword, parts.command) ∈ Command.keywords ∧
      (∀ c ∈ before, isBlank c = true) ∧ (∀ c ∈ after, isBlank c = true) ∧
      body = '(' :: (keyword ++ ' ' :: (before ++ parts.inner ++ after ++ [')'])) ∧
      parts.first = first + keyword.length + before.length + 2 := by
  obtain ⟨keyword, rest, hk, hbody, hinner, hfirst⟩ := exists_rest_of_command hb h
  obtain ⟨after, hafter, hrest⟩ := exists_trim rest
  refine ⟨keyword, rest.takeWhile isBlank, after, hk, fun c => List.mem_takeWhile_imp, hafter, ?_,
    hfirst⟩
  rwa [hinner, ← hrest]

/-- Why a command with as many closing as opening parentheses cannot be read. -/
theorem command_eq_error {body : List Char} {first : Nat} {e : ParseError}
    (hb : body.head? = some '(') (hc : body.count '(' = body.count ')')
    (h : command body first = .error e) :
    (e = .within .zeroLengthSubstitution (first + 1) (first + 2) ∧ body = ['(', ')']) ∨
    (e = .within .invalidExpression first (first + body.length) ∧ (body.getLast? ≠ some ')' ∨
      ∃ content, body = '(' :: (content ++ [')']) ∧ ' ' ∉ content)) ∨
    ∃ word rest, e = .within .unknownCommand (first + 1) (first + 1 + word.length) ∧
      body = '(' :: (word ++ ' ' :: rest) ∧ ' ' ∉ word ∧
      ∀ c, (String.ofList word, c) ∉ Command.keywords := by
  unfold command at h
  simp only at h
  split at h
  · rename_i hlength
    refine Or.inl ⟨?_, ?_⟩
    · rw [hlength] at h
      exact (Except.error.inj h).symm
    · obtain ⟨rest, rfl⟩ := List.head?_eq_some_iff.mp hb
      obtain ⟨c, rfl⟩ := List.length_eq_one_iff.mp (Nat.succ.inj hlength)
      by_cases hclose : c = ')'
      · rw [hclose]
      · simp [hclose] at hc
  · split at h
    · rename_i hlast
      exact Or.inr (Or.inl ⟨(Except.error.inj h).symm, Or.inl hlast⟩)
    · rename_i hlast
      obtain ⟨content, rfl⟩ := eq_parenthesized hb (not_not.mp hlast)
      simp only [List.tail_cons, List.dropLast_concat] at h
      cases hr : content.dropWhile (· != ' ') with
      | nil =>
          simp only [hr, List.isEmpty_nil, if_true] at h
          have hspace : ' ' ∉ content := by
            intro hm
            obtain ⟨before, after, rfl, hbefore⟩ := List.eq_append_cons_of_mem hm
            rw [dropWhile_append_cons hbefore] at hr
            cases hr
          exact Or.inr (Or.inl ⟨(Except.error.inj h).symm, Or.inr ⟨content, rfl, hspace⟩⟩)
      | cons d rest =>
          obtain rfl := eq_of_dropWhile hr
          simp only [hr, List.isEmpty_cons, Bool.false_eq_true, if_false] at h
          split at h
          · rename_i hk
            refine Or.inr (Or.inr ⟨_, rest ++ [')'], (Except.error.inj h).symm, ?_,
              not_mem_takeWhile, ?_⟩)
            · have hcontent := congrArg (· ++ [')']) (eq_append_of_dropWhile hr)
              simpa using hcontent
            · intro c hm
              rw [ofKeyword?_eq_some_iff.mpr hm] at hk
              cases hk
          · cases h

/-- A command with a tight body behind it is read into just that. -/
theorem command_append {keyword before inner after : List Char} {c : Command}
    (hk : (String.ofList keyword, c) ∈ Command.keywords)
    (hb : ∀ c ∈ before, isBlank c = true) (hi : Tight inner)
    (ha : ∀ c ∈ after, isBlank c = true) (first : Nat) :
    command ('(' :: (keyword ++ ' ' :: (before ++ inner ++ after ++ [')']))) first =
      .ok ⟨c, inner, first + keyword.length + before.length + 2⟩ := by
  have hspace : ' ' ∉ keyword := not_mem_of_isName (isName_of_mem_keywords hk) (by decide)
  have hinner : 0 < inner.length := List.length_pos_iff.mpr hi.nonempty
  have hbody : '(' :: (keyword ++ ' ' :: (before ++ inner ++ after ++ [')'])) =
      '(' :: (keyword ++ ' ' :: (before ++ inner ++ after)) ++ [')'] := by simp
  have htrim : trim (' ' :: (before ++ inner ++ after)) = inner := by
    rw [trim_cons_of_isBlank (by decide), trim_append_append hb hi ha]
  have hleft : trimLeft (' ' :: (before ++ inner ++ after)) = inner ++ after := by
    rw [trimLeft_cons_of_isBlank (by decide), List.append_assoc, trimLeft_blanks_append hb,
      trimLeft_of_head (hi.head_append after)]
  unfold command
  rw [hbody, if_neg (by simp; omega), if_neg (not_not.mpr List.getLast?_concat)]
  simp only [List.cons_append, List.tail_cons, List.dropLast_concat,
    takeWhile_append_cons hspace, dropWhile_append_cons hspace, ofKeyword?_eq_some_iff.mpr hk,
    htrim, hleft, List.isEmpty_cons, Bool.false_eq_true, if_false]
  congr 2
  simp only [List.length_cons, List.length_append]
  omega

/-! ### Finding the parts again -/

/-- A keyword asks for one command. -/
theorem command_unique {keyword : String} {c d : Command}
    (hc : (keyword, c) ∈ Command.keywords) (hd : (keyword, d) ∈ Command.keywords) : c = d := by
  rw [← ofKeyword?_eq_some_iff] at hc hd
  exact Option.some.inj (hc.symm.trans hd)

/-- Two stretches of blanks in front of tight texts are equal if the texts are. -/
theorem before_unique {before before' inner inner' after after' : List Char}
    (hb : ∀ c ∈ before, isBlank c = true) (hb' : ∀ c ∈ before', isBlank c = true)
    (hi : Tight inner) (hi' : Tight inner')
    (h : before ++ inner ++ after = before' ++ inner' ++ after') : before = before' := by
  have htake {b i a : List Char} (hb : ∀ c ∈ b, isBlank c = true) (hi : Tight i) :
      (b ++ i ++ a).takeWhile isBlank = b := by
    rw [List.append_assoc, List.takeWhile_append_of_pos hb, takeWhile_isBlank_of_head
      (hi.head_append a), List.append_nil]
  rw [← htake hb hi (a := after), h, htake hb' hi']

/-- The parts of a command around a tight text can be found again. -/
theorem command_parts_unique
    {keyword keyword' before before' inner inner' after after' : List Char}
    (hk : ' ' ∉ keyword) (hk' : ' ' ∉ keyword')
    (hb : ∀ c ∈ before, isBlank c = true) (hb' : ∀ c ∈ before', isBlank c = true)
    (hi : Tight inner) (hi' : Tight inner')
    (ha : ∀ c ∈ after, isBlank c = true) (ha' : ∀ c ∈ after', isBlank c = true)
    (h : keyword ++ ' ' :: (before ++ inner ++ after ++ [')']) =
      keyword' ++ ' ' :: (before' ++ inner' ++ after' ++ [')'])) :
    keyword = keyword' ∧ before = before' ∧ inner = inner' ∧ after = after' := by
  obtain ⟨rfl, hrest⟩ := append_cons_inj hk hk' h
  have hcontent := List.append_cancel_right hrest
  have hinner : inner = inner' := by
    calc
      inner = trim (before ++ inner ++ after) := (trim_append_append hb hi ha).symm
      _ = trim (before' ++ inner' ++ after') := by rw [hcontent]
      _ = inner' := trim_append_append hb' hi' ha'
  obtain rfl := before_unique hb hb' hi hi' hcontent
  subst hinner
  exact ⟨rfl, rfl, rfl, List.append_cancel_left hcontent⟩

/-- Only the text of a name begins with a name character, and the other forms differ in the
mark they begin with. -/
theorem Body.text_injective {b b' : Body} (h : b.WellFormed) (h' : b'.WellFormed)
    (he : b.text = b'.text) : b = b' := by
  have hname {n : List Char} (hn : isName n = true) {c : Char} (hc : isNameChar c = false)
      (cs : List Char) : n ≠ c :: cs :=
    fun heq => not_mem_of_isName hn hc (heq ▸ List.mem_cons_self)
  induction b generalizing b' with
  | name n =>
      cases b' with
      | name n' => exact congrArg Body.name he
      | _ => exact absurd he (hname h (by decide) _)
  | binding n =>
      cases b' with
      | name n' => exact absurd he.symm (hname h' (by decide) _)
      | binding n' => exact congrArg Body.binding (List.cons.inj he).2
      | _ => exact absurd (List.cons.inj he).1 (by decide)
  | sticky n =>
      cases b' with
      | name n' => exact absurd he.symm (hname h' (by decide) _)
      | sticky n' => exact congrArg Body.sticky (List.cons.inj he).2
      | _ => exact absurd (List.cons.inj he).1 (by decide)
  | range lower upper =>
      cases b' with
      | name n' => exact absurd he.symm (hname h' (by decide) _)
      | range lower' upper' =>
          obtain ⟨rfl, rfl⟩ :=
            append_cons_inj h.1.not_mem h'.1.not_mem (List.cons.inj he).2
          rfl
      | _ => exact absurd (List.cons.inj he).1 (by decide)
  | assignment n rule =>
      cases b' with
      | name n' => exact absurd he.symm (hname h' (by decide) _)
      | assignment n' rule' =>
          obtain ⟨rfl, rfl⟩ := append_cons_inj (not_mem_of_isName h.1 (by decide))
            (not_mem_of_isName h'.1 (by decide)) (List.cons.inj he).2
          rfl
      | _ => exact absurd (List.cons.inj he).1 (by decide)
  | command keyword c before inner after ih =>
      cases b' with
      | name n' => exact absurd he.symm (hname h' (by decide) _)
      | command keyword' c' before' inner' after' =>
          obtain ⟨hk, hb, hi, ha⟩ := h
          obtain ⟨hk', hb', hi', ha'⟩ := h'
          have hspace := not_mem_of_isName (isName_of_mem_keywords hk) (c := ' ') (by decide)
          have hspace' := not_mem_of_isName (isName_of_mem_keywords hk') (c := ' ') (by decide)
          obtain ⟨rfl, rfl, htext, rfl⟩ := command_parts_unique hspace hspace' hb hb'
            (tight_text hi) (tight_text hi') ha ha' (List.cons.inj he).2
          obtain rfl := command_unique hk hk'
          obtain rfl := ih hi hi' htext
          rfl
      | _ => exact absurd (List.cons.inj he).1 (by decide)

/-! ### Reading whole bodies -/

theorem substitution_eq_ok {body : List Char} {first : Nat} {token : Token}
    (h : substitution body first = .ok token) :
    ∃ b : Body, b.WellFormed ∧ b.text = body ∧ b.token = token := by
  fun_induction substitution body first generalizing token with
  | case1 body first hb => exact plainSubstitution_eq_ok h
  | case2 body first hb hc => cases h
  | case3 body first hb hc e he => cases h
  | case4 body first hb hc parts hp hlt ih =>
      obtain ⟨inner, hi, rfl⟩ := Answer.map_eq_ok_iff.mp h
      obtain ⟨b, hwell, htext, rfl⟩ := ih hi
      obtain ⟨keyword, before, after, hk, hbefore, hafter, rfl, -⟩ :=
        command_eq_ok (not_not.mp hb) hp
      exact ⟨.command keyword parts.command before b after, ⟨hk, hbefore, hwell, hafter⟩,
        by rw [Body.text, htext], rfl⟩

theorem substitution_text {b : Body} (h : b.WellFormed) (first : Nat) :
    substitution b.text first = .ok b.token := by
  induction b generalizing first with
  | command keyword command before inner after ih =>
      obtain ⟨hk, hbefore, hi, hafter⟩ := id h
      have hparens := Body.count_parens h
      have hparts := command_append hk hbefore (Body.tight_text hi) hafter first
      rw [Body.text] at hparens ⊢
      rw [substitution, if_neg (by simp), if_neg (by simpa using hparens)]
      split
      · rename_i e he
        rw [hparts] at he
        cases he
      · rename_i parts he
        obtain rfl := Except.ok.inj (hparts.symm.trans he)
        rw [ih hi]
        rfl
  | name n =>
      have hhead : n.head? ≠ some '(' := fun hc =>
        not_mem_of_isName h (by decide) (List.mem_of_head? hc)
      rw [substitution, if_pos (show (Body.name n).text.head? ≠ some '(' from hhead)]
      exact plainSubstitution_text h hhead first
  | binding n | sticky n | range lower upper | assignment n rule =>
      rw [substitution, if_pos (by simp [Body.text])]
      exact plainSubstitution_text h (by simp [Body.text]) first

theorem substitution_eq_ok_iff {body : List Char} {first : Nat} {token : Token} :
    substitution body first = .ok token ↔
      ∃ b : Body, b.WellFormed ∧ b.text = body ∧ b.token = token := by
  constructor
  · exact substitution_eq_ok
  · rintro ⟨b, hb, rfl, rfl⟩
    exact substitution_text hb first

end TaggedGrammar.Template
