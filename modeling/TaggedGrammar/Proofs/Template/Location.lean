import TaggedGrammar.Proofs.Template.Position

/-!
# Where a template is at fault

An error names a defect, and the text under its span shows that defect. Only a template without
characters and one whose brackets do not balance are at fault as a whole. Every other error
comes from one body, or from a bracket that closes nothing, and the bodies of commands in
commands are followed by `BodyAt`, which says where in the template each of them begins.

## Main statements

* `BodyAt.slice_eq`: a body is the text under its span.
* `locatedIn_of_substitution`: an error in a body is shown by the text under its span.
* `Scan.locatedIn_of_run`: so is every error of the reader.
* `parse_error_located`: which errors a template gives, and where.
-/

namespace TaggedGrammar

namespace Template

open Text

/-! ### Bodies in a template -/

/-- The characters from position `first` up to position `last`. -/
def slice (cs : List Char) (first last : Nat) : List Char := (cs.take last).drop first

/-- The text that begins at the position is the body of a substitution, up to the first bare
`>`, or the body behind a known command in such a body. -/
inductive BodyAt (cs : List Char) : Nat → List Char → Prop where
  | substitution {ps : List Piece} {before body after : List Char} (hps : Decomposes ps before)
      (hopen : before.getLast? ≠ some '\\') (hclose : body.getLast? ≠ some '\\')
      (hbody : ∀ i, ¬BareAt '>' body i) (hcs : cs = before ++ '<' :: (body ++ '>' :: after)) :
      BodyAt cs (before.length + 1) body
  | command {first : Nat} {keyword rest : List Char} {c : Command}
      (outer : BodyAt cs first ('(' :: (keyword ++ ' ' :: (rest ++ [')']))))
      (hk : (String.ofList keyword, c) ∈ Command.keywords) :
      BodyAt cs (first + keyword.length + (rest.takeWhile isBlank).length + 2) (trim rest)

theorem slice_append (before body after : List Char) :
    slice (before ++ (body ++ after)) before.length (before.length + body.length) = body := by
  simp [slice, List.take_append, List.take_of_length_le]

theorem getElem?_append_cons (before : List Char) (c : Char) (after : List Char) :
    (before ++ c :: after)[before.length]? = some c := by
  simp

theorem exists_blanks_trim (cs : List Char) : ∃ after,
    cs = cs.takeWhile isBlank ++ trim cs ++ after ∧ (trim cs = [] → after = []) := by
  obtain ⟨after, hafter, hcs⟩ := exists_trim cs
  refine ⟨after, hcs, ?_⟩
  intro htrim
  have hblank : ∀ c ∈ cs, isBlank c = true := by
    intro c hc
    rw [hcs, htrim, List.append_nil] at hc
    rcases List.mem_append.mp hc with hc | hc
    · exact List.mem_takeWhile_imp hc
    · exact hafter c hc
  have htake : cs.takeWhile isBlank = cs := List.takeWhile_eq_self_iff.mpr hblank
  rw [htrim, htake, List.append_nil] at hcs
  exact List.self_eq_append_right.mp hcs

/-- A body stands where it begins, and an empty one stands before the mark that closes it. -/
theorem BodyAt.exists_text {cs body : List Char} {first : Nat} (h : BodyAt cs first body) :
    ∃ before c after, cs = before ++ (body ++ c :: after) ∧ before.length = first ∧
      (body = [] → c = '>' ∨ c = ')') := by
  induction h with
  | @substitution ps before body after hps hopen hclose hbody hcs =>
      refine ⟨before ++ ['<'], '>', after, ?_, by simp, fun _ => Or.inl rfl⟩
      rw [hcs, List.append_assoc, List.singleton_append]
  | @command first keyword rest c outer hk ih =>
      obtain ⟨before, d, after, hcs, hlength, -⟩ := ih
      obtain ⟨blanks, hrest, hempty⟩ := exists_blanks_trim rest
      have htext : cs = (before ++ '(' :: (keyword ++ ' ' :: rest.takeWhile isBlank)) ++
          (trim rest ++ (blanks ++ ')' :: d :: after)) := by
        calc
          cs = before ++ ('(' :: (keyword ++ ' ' :: (rest ++ [')'])) ++ d :: after) := hcs
          _ = before ++ ('(' :: (keyword ++ ' ' ::
                (rest.takeWhile isBlank ++ trim rest ++ blanks ++ [')'])) ++ d :: after) := by
            rw [← hrest]
          _ = _ := by simp
      have hbefore : (before ++ '(' :: (keyword ++ ' ' :: rest.takeWhile isBlank)).length =
          first + keyword.length + (rest.takeWhile isBlank).length + 2 := by
        simp only [List.length_append, List.length_cons]
        omega
      cases blanks with
      | nil => exact ⟨_, ')', d :: after, htext, hbefore, fun _ => Or.inr rfl⟩
      | cons e blanks =>
          exact ⟨_, e, blanks ++ ')' :: d :: after, htext, hbefore,
            fun he => nomatch hempty he⟩

theorem BodyAt.slice_eq {cs body : List Char} {first : Nat} (h : BodyAt cs first body) :
    slice cs first (first + body.length) = body := by
  obtain ⟨before, c, after, rfl, rfl, -⟩ := h.exists_text
  exact slice_append before body _

theorem BodyAt.lt_length {cs body : List Char} {first : Nat} (h : BodyAt cs first body) :
    first + body.length < cs.length := by
  obtain ⟨before, c, after, rfl, rfl, -⟩ := h.exists_text
  simp only [List.length_append, List.length_cons]
  omega

/-! ### What the text under a span shows -/

/-- The character at the position closes an empty body: it stands behind the bracket that opens
a substitution, behind blanks for which a command has no body, or behind an opening parenthesis
for which there is not even a command. -/
def ClosesEmpty (cs : List Char) (i : Nat) : Prop :=
  (cs[i]? = some '>' ∨ cs[i]? = some ')') ∧
    (BodyAt cs i [] ∨ ∃ first, i = first + 1 ∧ BodyAt cs first ['(', ')'])

end Template

open Template Text

/-- The text from position `first` up to position `last` has the defect. -/
def Defect.ShownAt (cs : List Char) (first last : Nat) (defect : Defect) : Prop :=
  let text := slice cs first last
  match defect with
  | unbalancedBrackets =>
    last = first + 1 ∧ BareAt '>' cs first ∧ ∃ ps, Decomposes ps (cs.take first)
  | zeroLengthSubstitution => last = first + 1 ∧ ClosesEmpty cs first
  | invalidName =>
    BodyAt cs first text ∧ text ≠ [] ∧ text.head? ≠ some '(' ∧ ¬IsSigiledName text ∧
      ¬IsAssignmentText text
  | invalidRange =>
    BodyAt cs first text ∧ (∃ bounds, text = '#' :: bounds ∧ isName bounds = true) ∧
      ∀ lower upper, (Body.range lower upper).WellFormed →
        text ≠ (Body.range lower upper).text
  | invalidExpression =>
    BodyAt cs first text ∧ text.head? = some '(' ∧
      (text.count '(' ≠ text.count ')' ∨ text.getLast? ≠ some ')' ∨
        ∃ content, text = '(' :: (content ++ [')']) ∧ ' ' ∉ content)
  | unknownCommand =>
    (∃ start rest, first = start + 1 ∧ BodyAt cs start ('(' :: (text ++ ' ' :: rest))) ∧
      cs[first - 1]? = some '(' ∧ cs[last]? = some ' ' ∧ ' ' ∉ text ∧
      ∀ c, (String.ofList text, c) ∉ Command.keywords
  | emptyRule | internal | unspecified => False

/-- The error has a span in the text, and what stands there has the defect. -/
def ParseError.LocatedIn (e : ParseError) (cs : List Char) : Prop :=
  ∃ first last, e = .within e.defect first last ∧ first ≤ last ∧ last ≤ cs.length ∧
    first < cs.length ∧ e.defect.ShownAt cs first last

theorem ParseError.LocatedIn.ne_whole {e : ParseError} {cs : List Char} (h : e.LocatedIn cs)
    (defect : Defect) : e ≠ .whole defect := by
  obtain ⟨first, last, he, -⟩ := h
  rw [he]
  exact fun hwhole => nomatch congrArg ParseError.place hwhole

namespace Template

/-! ### Errors in a body -/

/-- The span of an error is often that of a whole body. -/
theorem BodyAt.locatedIn {cs body : List Char} {first : Nat} {defect : Defect}
    (h : BodyAt cs first body) (hshown : defect.ShownAt cs first (first + body.length)) :
    (ParseError.within defect first (first + body.length)).LocatedIn cs := by
  have hlt := h.lt_length
  exact ⟨first, first + body.length, rfl, by omega, by omega, by omega, hshown⟩

theorem BodyAt.locatedIn_of_nil {cs : List Char} {first : Nat} (h : BodyAt cs first []) :
    (ParseError.within .zeroLengthSubstitution first (first + 1)).LocatedIn cs := by
  have hlt : first < cs.length := h.lt_length
  obtain ⟨before, c, after, hcs, rfl, hc⟩ := h.exists_text
  have hclose : cs[before.length]? = some c := by
    rw [hcs]
    exact getElem?_append_cons before c after
  have hmark : cs[before.length]? = some '>' ∨ cs[before.length]? = some ')' := by
    rcases hc rfl with rfl | rfl
    · exact Or.inl hclose
    · exact Or.inr hclose
  exact ⟨before.length, before.length + 1, rfl, by omega, hlt, hlt, rfl, hmark, Or.inl h⟩

theorem BodyAt.locatedIn_of_parens {cs : List Char} {first : Nat}
    (h : BodyAt cs first ['(', ')']) :
    (ParseError.within .zeroLengthSubstitution (first + 1) (first + 2)).LocatedIn cs := by
  have hlt : first + 2 < cs.length := h.lt_length
  obtain ⟨before, c, after, hcs, rfl, -⟩ := h.exists_text
  have hclose : cs[before.length + 1]? = some ')' := by
    rw [hcs]
    simp
  exact ⟨before.length + 1, before.length + 2, rfl, by omega, by omega, by omega, rfl,
    Or.inr hclose, Or.inr ⟨before.length, rfl, h⟩⟩

/-- The word in the place of a keyword begins behind the parenthesis. -/
theorem BodyAt.locatedIn_of_word {cs word rest : List Char} {first : Nat}
    (h : BodyAt cs first ('(' :: (word ++ ' ' :: rest))) (hspace : ' ' ∉ word)
    (hk : ∀ c, (String.ofList word, c) ∉ Command.keywords) :
    (ParseError.within .unknownCommand (first + 1) (first + 1 + word.length)).LocatedIn cs := by
  have hlt := h.lt_length
  simp only [List.length_cons, List.length_append] at hlt
  obtain ⟨before, c, after, hcs, rfl, -⟩ := h.exists_text
  have hbehind : cs = (before ++ ['(']) ++ (word ++ ' ' :: (rest ++ c :: after)) := by
    rw [hcs]
    simp
  have hword : slice cs (before.length + 1) (before.length + 1 + word.length) = word := by
    rw [hbehind]
    simpa using slice_append (before ++ ['(']) word _
  have hparen : cs[before.length]? = some '(' := by
    rw [hcs]
    exact getElem?_append_cons _ _ _
  have hend : cs[before.length + 1 + word.length]? = some ' ' := by
    have hget := getElem?_append_cons (before ++ '(' :: word) ' ' (rest ++ c :: after)
    rw [hbehind]
    simpa [Nat.add_assoc, Nat.add_comm 1] using hget
  refine ⟨before.length + 1, before.length + 1 + word.length, rfl, by omega, by omega, by omega,
    ⟨before.length, rest, rfl, ?_⟩, hparen, hend, ?_, ?_⟩
  · rwa [hword]
  · rwa [hword]
  · rwa [hword]

/-- An error in a body that is no command is that of the whole body, or that it is empty. -/
theorem locatedIn_of_plainSubstitution {cs body : List Char} {first : Nat} {e : ParseError}
    (hb : BodyAt cs first body) (hhead : body.head? ≠ some '(')
    (h : plainSubstitution body first = .error e) : e.LocatedIn cs := by
  rcases plainSubstitution_eq_error h with ⟨rfl, rfl⟩ | ⟨rfl, hne, hname, hassignment⟩ |
    ⟨rfl, hbounds, hrange⟩
  · exact hb.locatedIn_of_nil
  · apply hb.locatedIn
    rw [Defect.ShownAt, hb.slice_eq]
    exact ⟨hb, hne, hhead, hname, hassignment⟩
  · apply hb.locatedIn
    rw [Defect.ShownAt, hb.slice_eq]
    exact ⟨hb, hbounds, hrange⟩

theorem locatedIn_of_command {cs body : List Char} {first : Nat} {e : ParseError}
    (hb : BodyAt cs first body) (hhead : body.head? = some '(')
    (hcount : body.count '(' = body.count ')') (h : command body first = .error e) :
    e.LocatedIn cs := by
  rcases command_eq_error hhead hcount h with ⟨rfl, rfl⟩ | ⟨rfl, hshape⟩ |
    ⟨word, rest, rfl, rfl, hspace, hk⟩
  · exact hb.locatedIn_of_parens
  · apply hb.locatedIn
    rw [Defect.ShownAt, hb.slice_eq]
    exact ⟨hb, hhead, Or.inr hshape⟩
  · exact hb.locatedIn_of_word hspace hk

/-- An error in a body is shown by the text under its span, however deep in commands. -/
theorem locatedIn_of_substitution {cs body : List Char} {first : Nat} {e : ParseError}
    (hb : BodyAt cs first body) (h : substitution body first = .error e) : e.LocatedIn cs := by
  fun_induction substitution body first with
  | case1 body first hhead => exact locatedIn_of_plainSubstitution hb hhead h
  | case2 body first hhead hcount =>
      obtain rfl := Except.error.inj h
      apply hb.locatedIn
      rw [Defect.ShownAt, hb.slice_eq]
      exact ⟨hb, not_not.mp hhead, Or.inl hcount⟩
  | case3 body first hhead hcount e' he =>
      obtain rfl := Except.error.inj h
      exact locatedIn_of_command hb (not_not.mp hhead) (not_not.mp hcount) he
  | case4 body first hhead hcount parts hp hlt ih =>
      obtain ⟨keyword, rest, hk, rfl, hinner, hfirst⟩ :=
        exists_rest_of_command (not_not.mp hhead) hp
      have hbehind : BodyAt cs parts.first parts.inner := by
        rw [hinner, hfirst]
        exact .command hb hk
      exact ih hbehind (Answer.map_eq_error_iff.mp h)

/-! ### Errors of the reader -/

namespace Scan

/-- An error comes from a bare `>`, which closes nothing or a body that cannot be read. -/
theorem step_eq_error {s : Scan} {c : Char} {e : ParseError} (h : s.step c = .error e) :
    c = '>' ∧ s.previous ≠ some '\\' ∧
      (s.inside = false ∧ e = .within .unbalancedBrackets s.position (s.position + 1) ∨
        s.inside = true ∧ substitution s.pending.reverse s.start = .error e) := by
  unfold step at h
  split at h
  · cases h
  · split at h
    · rename_i hclose
      refine ⟨hclose.1, hclose.2, ?_⟩
      split at h
      · rename_i hi
        exact Or.inr ⟨hi, Answer.map_eq_error_iff.mp h⟩
      · rename_i hi
        exact Or.inl ⟨by simpa using hi, (Except.error.inj h).symm⟩
    · cases h

/-- Pieces before a substitution do not end in a backslash. -/
theorem getLast?_text_ne {ps : List Piece} {b : Body}
    (h : (ps ++ [Piece.substitution b]).IsChain Piece.MayPrecede)
    (hwell : ∀ p ∈ ps, p.WellFormed) : (ps.flatMap Piece.text).getLast? ≠ some '\\' := by
  rcases List.eq_nil_or_concat' ps with rfl | ⟨qs, p, rfl⟩
  · simp
  · have hmay : p.MayPrecede (.substitution b) :=
      (List.isChain_append.mp h).2.2 p (by simp) _ rfl
    have hlast : p.text ≠ [] ∧ p.text.getLast? ≠ some '\\' := by
      cases p with
      | run cs => exact ⟨(hwell (.run cs) (by simp)).1, hmay⟩
      | substitution b' =>
          refine ⟨List.cons_ne_nil _ _, ?_⟩
          rw [Piece.text, ← List.cons_append, List.getLast?_concat]
          decide
    rw [List.flatMap_append, List.flatMap_singleton,
      List.getLast?_append_of_ne_nil _ hlast.1]
    exact hlast.2

/-- The characters pending in an open substitution are the body that a bare `>` would close. -/
theorem bodyAt_of_run {s : Scan} {seen : List Char} (h : initial.run seen = .ok s)
    (hi : s.inside = true) (hp : s.previous ≠ some '\\') (rest : List Char) :
    BodyAt (seen ++ '>' :: rest) s.start s.pending.reverse := by
  obtain ⟨ps, hs⟩ := holds_of_run h
  have hplaced := placed_of_run h
  obtain ⟨hseen, hchain⟩ := hs.inside hi
  have hps : Decomposes ps (ps.flatMap Piece.text) :=
    ⟨hs.wellFormed, (hchain (.name [])).left_of_append, rfl⟩
  have hstart : s.start = (ps.flatMap Piece.text).length + 1 := by
    have hlength := hplaced.start
    rw [hseen, List.length_append, List.length_cons, List.length_reverse] at hlength
    omega
  have hclose : s.pending.reverse.getLast? ≠ some '\\' := by
    rw [List.getLast?_reverse]
    exact mt hs.previous.mpr hp
  have hcs : seen ++ '>' :: rest =
      ps.flatMap Piece.text ++ '<' :: (s.pending.reverse ++ '>' :: rest) := by
    rw [hseen, List.append_assoc, List.cons_append]
  rw [hstart]
  exact .substitution hps (getLast?_text_ne (hchain (.name [])) hs.wellFormed) hclose
    (hplaced.body hi) hcs

theorem locatedIn_of_run {cs : List Char} {e : ParseError} (h : initial.run cs = .error e) :
    e.LocatedIn cs := by
  obtain ⟨seen, c, rest, s, rfl, hrun, hstep⟩ := exists_of_run_eq_error h
  obtain ⟨rfl, hp, ⟨hi, rfl⟩ | ⟨hi, hbody⟩⟩ := step_eq_error hstep
  · obtain ⟨ps, hs⟩ := holds_of_run hrun
    have hlast : seen.getLast? ≠ some '\\' := (counted_of_run hrun).previous ▸ hp
    have htake : (seen ++ '>' :: rest).take seen.length = seen := by simp
    rw [(placed_of_run hrun).position]
    refine ⟨seen.length, seen.length + 1, rfl, by omega, by simp, by simp, rfl,
      bareAt_append_cons_iff.mpr ⟨rfl, hlast⟩, s.flushed ps, ?_⟩
    rw [htake]
    exact (hs.decomposes hi).1
  · exact locatedIn_of_substitution (bodyAt_of_run hrun hi hp rest) hbody

end Scan

/-! ### Errors of templates -/

theorem parseChars_eq_error {cs : List Char} {e : ParseError} (h : parseChars cs = .error e) :
    (cs = [] ∧ e = .whole .emptyRule) ∨
    (cs ≠ [] ∧ bareCount '<' cs ≠ bareCount '>' cs ∧ e = .whole .unbalancedBrackets) ∨
    e.LocatedIn cs := by
  by_cases hcs : cs = []
  · rw [hcs] at h
    exact Or.inl ⟨hcs, (Except.error.inj h).symm⟩
  · rw [parseChars_of_ne_nil hcs, unescapedCount_eq _ (by decide),
      unescapedCount_eq _ (by decide)] at h
    split at h
    · rename_i hcount
      exact Or.inr (Or.inl ⟨hcs, hcount, (Except.error.inj h).symm⟩)
    · exact Or.inr (Or.inr (Scan.locatedIn_of_run (Answer.map_eq_error_iff.mp h)))

theorem parse_eq_emptyRule_iff {template : String} :
    parse template = .error (.whole .emptyRule) ↔ template = "" := by
  constructor
  · intro h
    rcases parseChars_eq_error h with ⟨hnil, -⟩ | ⟨-, -, he⟩ | hlocated
    · exact String.toList_eq_nil_iff.mp hnil
    · cases he
    · exact absurd rfl (hlocated.ne_whole _)
  · rintro rfl
    rfl

theorem parse_eq_unbalancedBrackets_iff {template : String} :
    parse template = .error (.whole .unbalancedBrackets) ↔ template ≠ "" ∧
      bareCount '<' template.toList ≠ bareCount '>' template.toList := by
  constructor
  · intro h
    rcases parseChars_eq_error h with ⟨-, he⟩ | ⟨hne, hcount, -⟩ | hlocated
    · cases he
    · exact ⟨mt String.toList_eq_nil_iff.mpr hne, hcount⟩
    · exact absurd rfl (hlocated.ne_whole _)
  · rintro ⟨hne, hcount⟩
    rw [parse, parseChars_of_ne_nil (mt String.toList_eq_nil_iff.mp hne),
      unescapedCount_eq _ (by decide), unescapedCount_eq _ (by decide), if_pos hcount]

/-- Only a template without characters is empty, and only one with unequal numbers of bare
brackets is unbalanced as a whole. Every other error has a span in the template, and what stands
there has the defect that the error names. -/
theorem parse_error_located (template : String) :
    (parse template = .error (.whole .emptyRule) ↔ template = "") ∧
    (parse template = .error (.whole .unbalancedBrackets) ↔ template ≠ "" ∧
      bareCount '<' template.toList ≠ bareCount '>' template.toList) ∧
    ∀ e, parse template = .error e → e = .whole .emptyRule ∨ e = .whole .unbalancedBrackets ∨
      e.LocatedIn template.toList := by
  refine ⟨parse_eq_emptyRule_iff, parse_eq_unbalancedBrackets_iff, ?_⟩
  intro e h
  rcases parseChars_eq_error h with ⟨-, he⟩ | ⟨-, -, he⟩ | hlocated
  · exact Or.inl he
  · exact Or.inr (Or.inl he)
  · exact Or.inr (Or.inr hlocated)

/-- The word that is no keyword stands in a body behind another command. -/
theorem located_inner_command :
    parse "<(cap (up ox))>" = .error (.within .unknownCommand 7 9) ∧
      (ParseError.within .unknownCommand 7 9).LocatedIn "<(cap (up ox))>".toList := by
  have herror : parse "<(cap (up ox))>" = .error (.within .unknownCommand 7 9) := by
    decide +kernel
  refine ⟨herror, ?_⟩
  rcases (parse_error_located _).2.2 _ herror with he | he | hlocated
  · exact absurd he (by decide)
  · exact absurd he (by decide)
  · exact hlocated

end Template

end TaggedGrammar
