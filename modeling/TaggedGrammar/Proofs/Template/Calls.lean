import TaggedGrammar.Proofs.Template.Location

/-!
# Bodies in bodies

A bare `>` has the reader read the body before it, and a body with a command has it read the body
behind the command. Each of these calls is given a body together with the span where it should
stand. It does stand there, although the span of an inner body is put together from the lengths of
what was cut off around it. The span lies strictly inside that of the outer body, so that there
cannot be calls in calls for ever. What is cut off has one parenthesis of each kind, and therefore
only an outermost body can have more of one kind than of the other.

## Main statements

* `Call.Makes.within`: an inner span lies strictly inside the outer one.
* `Call.Makes.count_eq`: an inner body has as many closing as opening parentheses.
* `Call.wellFounded_makes`: calls in calls come to an end.
* `Calls.bodyAt`: every call is given a body of the template.
* `calls_are_slices`: what holds of every call.
-/

namespace TaggedGrammar.Template

open Text

/-- A body that is to be read, with the span that is told with it. -/
structure Call where
  body : List Char
  first : Nat
  last : Nat

namespace Call

/-- To read the body of one call is to read that of another behind its command. -/
inductive Makes (c : Call) : Call → Prop
  | command {parts : CommandParts} (hhead : c.body.head? = some '(')
      (hcount : c.body.count '(' = c.body.count ')')
      (hparts : Template.command c.body c.first = .ok parts) :
      c.Makes ⟨parts.inner, parts.first, parts.first + parts.inner.length⟩

variable {c d : Call}

/-- What a call is answered is what the call that it makes is answered, behind a command. -/
theorem Makes.substitution_eq (h : c.Makes d) : ∃ command,
    substitution c.body c.first =
      (substitution d.body d.first).map (.expression command) := by
  obtain ⟨hhead, hcount, hparts⟩ := h
  rename_i parts
  refine ⟨parts.command.name, ?_⟩
  rw [substitution, if_neg (not_not.mpr hhead), if_neg (not_not.mpr hcount)]
  split
  · rename_i e he
    exact absurd (hparts.symm.trans he) nofun
  · rename_i parts' he
    obtain rfl := Except.ok.inj (hparts.symm.trans he)
    rfl

/-- The body of a call is a keyword and that of the inner call in blanks and parentheses. -/
theorem Makes.exists_text (h : c.Makes d) :
    ∃ keyword before after, isName keyword = true ∧ (∀ b ∈ before, isBlank b = true) ∧
      (∀ b ∈ after, isBlank b = true) ∧
      c.body = '(' :: (keyword ++ ' ' :: (before ++ d.body ++ after ++ [')'])) ∧
      d.first = c.first + keyword.length + before.length + 2 ∧
      d.last = d.first + d.body.length := by
  obtain ⟨hhead, -, hparts⟩ := h
  obtain ⟨keyword, before, after, hk, hbefore, hafter, hbody, hfirst⟩ :=
    command_eq_ok hhead hparts
  exact ⟨keyword, before, after, isName_of_mem_keywords hk, hbefore, hafter, hbody, hfirst, rfl⟩

theorem Makes.within (h : c.Makes d) (hlast : c.last = c.first + c.body.length) :
    c.first < d.first ∧ d.last < c.last := by
  obtain ⟨keyword, before, after, -, -, -, hbody, hfirst, hend⟩ := h.exists_text
  have hlength := congrArg List.length hbody
  simp only [List.length_cons, List.length_append, List.length_nil] at hlength
  omega

/-- Blanks and names have no parentheses, so just one of each kind is cut off. -/
theorem Makes.count_eq (h : c.Makes d) : d.body.count '(' = d.body.count ')' := by
  obtain ⟨keyword, before, after, hk, hbefore, hafter, hbody, -⟩ := h.exists_text
  have hcut {p : Char} (hname : isNameChar p = false) (hblank : isBlank p = false) :
      c.body.count p = d.body.count p + ['(', ')'].count p := by
    have hblanks {blanks : List Char} (hb : ∀ b ∈ blanks, isBlank b = true) :
        blanks.count p = 0 :=
      List.count_eq_zero.mpr fun hm => absurd (hb p hm) (by simp [hblank])
    have hkeyword : keyword.count p = 0 := List.count_eq_zero.mpr (not_mem_of_isName hk hname)
    have hspace : [' '].count p = 0 := hblanks (List.forall_mem_singleton.mpr (by decide))
    simp only [hbody, List.count_cons, List.count_append, hkeyword, hblanks hbefore,
      hblanks hafter, List.count_nil] at hspace ⊢
    omega
  obtain ⟨-, hcount, -⟩ := h
  rw [hcut (by decide) (by decide), hcut (by decide) (by decide)] at hcount
  exact Nat.add_right_cancel hcount

theorem wellFounded_makes : WellFounded fun d c : Call => c.Makes d := by
  refine Subrelation.wf ?_ (measure fun c : Call => c.body.length).wf
  rintro d c ⟨-, -, hparts⟩
  exact command_length_lt hparts

end Call

/-- The calls that are made while a template is read, with the number of commands in which their
bodies stand. -/
inductive Calls (cs : List Char) : Nat → Call → Prop
  | outermost {seen rest : List Char} {s : Scan}
      (hcount : unescapedCount '<' cs = unescapedCount '>' cs) (hcs : cs = seen ++ '>' :: rest)
      (hrun : Scan.initial.run seen = .ok s) (hinside : s.inside = true)
      (hprevious : s.previous ≠ some '\\') :
      Calls cs 0 ⟨s.pending.reverse, s.start, s.position⟩
  | inner {depth : Nat} {c d : Call} (outer : Calls cs depth c) (h : c.Makes d) :
      Calls cs (depth + 1) d

namespace Calls

variable {cs : List Char} {depth : Nat} {c : Call}

/-- The reader takes a bare `>` as the outermost call is answered. -/
theorem step_eq (h : Calls cs 0 c) : ∃ seen rest s, cs = seen ++ '>' :: rest ∧
    Scan.initial.run seen = .ok s ∧ s.step '>' = (substitution c.body c.first).map fun token =>
      s.restart '>' (s.tokens ++ [token]) false := by
  cases h with
  | @outermost seen rest s _ hcs hrun hinside hprevious =>
      refine ⟨seen, rest, s, hcs, hrun, ?_⟩
      have hopen : ¬('>' = '<' ∧ s.previous ≠ some '\\' ∧ s.inside = false) :=
        fun he => absurd he.1 (by decide)
      rw [Scan.step, if_neg hopen, if_pos ⟨rfl, hprevious⟩, if_pos hinside]

theorem last_eq (h : Calls cs depth c) : c.last = c.first + c.body.length := by
  cases h with
  | @outermost seen rest s _ _ hrun _ _ =>
      have hplaced := Scan.placed_of_run hrun
      change s.position = s.start + s.pending.reverse.length
      rw [List.length_reverse, hplaced.start, hplaced.position]
  | inner _ hmakes =>
      obtain ⟨-, -, -, -, -, -, -, -, hlast⟩ := hmakes.exists_text
      exact hlast

theorem bodyAt (h : Calls cs depth c) : BodyAt cs c.first c.body := by
  induction h with
  | outermost _ hcs hrun hinside hprevious =>
      rw [hcs]
      exact Scan.bodyAt_of_run hrun hinside hprevious _
  | inner _ hmakes ih =>
      obtain ⟨hhead, -, hparts⟩ := hmakes
      obtain ⟨keyword, rest, hk, hbody, hinner, hfirst⟩ := exists_rest_of_command hhead hparts
      rw [hbody] at ih
      rw [hinner, hfirst]
      exact .command ih hk

theorem count_eq (h : Calls cs depth c) (hdepth : depth ≠ 0) :
    c.body.count '(' = c.body.count ')' := by
  cases h with
  | outermost => exact absurd rfl hdepth
  | inner _ hmakes => exact hmakes.count_eq

end Calls

/-- Every call is given just what stands in the template under its span, at any depth of commands.
The reader goes on behind an outermost call as this is answered. A call that another one makes has
a span strictly inside, and the answer to it is the answer to the other behind a command. Inner
bodies have as many closing as opening parentheses, so that only outermost bodies are refused
because they have not. Calls in calls come to an end. -/
theorem calls_are_slices (template : String) :
    (∀ depth c, Calls template.toList depth c →
      slice template.toList c.first c.last = c.body ∧
      c.first ≤ c.last ∧ c.last ≤ template.toList.length ∧
      (depth = 0 → ∃ seen rest s, template.toList = seen ++ '>' :: rest ∧
        Scan.initial.run seen = .ok s ∧
        s.step '>' = (substitution c.body c.first).map fun token =>
          s.restart '>' (s.tokens ++ [token]) false) ∧
      (∀ d, c.Makes d → c.first < d.first ∧ d.last < c.last ∧ ∃ command,
        substitution c.body c.first = (substitution d.body d.first).map (.expression command)) ∧
      (depth ≠ 0 → c.body.count '(' = c.body.count ')') ∧
      (c.body.head? = some '(' → c.body.count '(' ≠ c.body.count ')' → depth = 0 ∧
        substitution c.body c.first = .error (.within .invalidExpression c.first c.last))) ∧
    WellFounded fun d c : Call => c.Makes d := by
  refine ⟨fun depth c h => ?_, Call.wellFounded_makes⟩
  have hlast := h.last_eq
  have hlt := h.bodyAt.lt_length
  refine ⟨?_, by omega, by omega, ?_, fun d hmakes => ?_, h.count_eq,
    fun hhead hcount => ⟨?_, ?_⟩⟩
  · rw [hlast]
    exact h.bodyAt.slice_eq
  · rintro rfl
    exact h.step_eq
  · obtain ⟨hfirst, hend⟩ := hmakes.within hlast
    exact ⟨hfirst, hend, hmakes.substitution_eq⟩
  · exact not_not.mp fun hdepth => hcount (h.count_eq hdepth)
  · rw [substitution, if_neg (not_not.mpr hhead), if_pos hcount, hlast]

/-- A body stands in blanks, in parentheses and behind an ox. -/
theorem calls_are_slices_hen :
    let template := "ox <(cap  (low hen) )>"
    let outer : Call := ⟨"(cap  (low hen) )".toList, 4, 21⟩
    let inner : Call := ⟨"(low hen)".toList, 10, 19⟩
    Calls template.toList 0 outer ∧ outer.Makes inner ∧ Calls template.toList 1 inner ∧
      slice template.toList 10 19 = "(low hen)".toList ∧
      inner.body.count '(' = inner.body.count ')' := by
  intro template outer inner
  let before : Scan :=
    ⟨[.literal "ox "], true, 4, "(cap  (low hen) )".toList.reverse, 21, some ')'⟩
  have hsplit : template.toList = "ox <(cap  (low hen) )".toList ++ ['>'] := by decide
  have hrun : Scan.initial.run "ox <(cap  (low hen) )".toList = .ok before := rfl
  have houter : Calls template.toList 0 outer :=
    .outermost (by decide) hsplit hrun rfl (by decide)
  have hparts : command outer.body outer.first = .ok ⟨.capitalize, inner.body, inner.first⟩ := by
    decide
  have hmakes : outer.Makes inner := .command rfl (by decide) hparts
  have hinner : Calls template.toList 1 inner := houter.inner hmakes
  obtain ⟨hslice, -, -, -, -, hcount, -⟩ := (calls_are_slices template).1 1 inner hinner
  exact ⟨houter, hmakes, hinner, hslice, hcount (by decide)⟩

end TaggedGrammar.Template
