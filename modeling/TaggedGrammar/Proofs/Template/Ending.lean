import TaggedGrammar.Proofs.Template.Position

/-!
# Where reading ends

The reader never looks whether a substitution is still open when the template is over. It need not:
a `<` in a body is passed over, but no body with a bracket can be read, so every bare `<` has been
the opening of a substitution and every bare `>` the closing of one. As many bare brackets of both
kinds, which is compared beforehand, therefore leave the reader outside, and what it has collected
since the last bare `>` is a run of text.

## Main statements

* `Scan.bareAt_iff_previous`: the reader takes for bare what stands behind no backslash.
* `Scan.settled_of_run`: the tokens and the collected characters of a state.
* `Scan.ends_outside`: the state behind a whole template.
-/

namespace TaggedGrammar.Template

/-- The number of tokens that are no text. -/
def substitutionCount (tokens : List Token) : Nat := tokens.countP fun t => t.text?.isNone

theorem substitutionCount_concat_literal (tokens : List Token) (text : String) :
    substitutionCount (tokens ++ [.literal text]) = substitutionCount tokens := by
  rw [substitutionCount, List.countP_append]
  rfl

theorem substitutionCount_concat_body (tokens : List Token) (b : Body) :
    substitutionCount (tokens ++ [b.token]) = substitutionCount tokens + 1 := by
  rw [substitutionCount, List.countP_append]
  cases b <;> rfl

namespace Scan

theorem substitutionCount_flush (s : Scan) :
    substitutionCount s.flush = substitutionCount s.tokens := by
  unfold flush
  split
  · rfl
  · exact substitutionCount_concat_literal _ _

/-- The last character that the reader has seen decides whether the next one is bare. -/
theorem bareAt_iff_previous {s : Scan} {seen : List Char} (h : initial.run seen = .ok s)
    (b c : Char) (rest : List Char) :
    BareAt b (seen ++ c :: rest) seen.length ↔ c = b ∧ s.previous ≠ some '\\' := by
  rw [bareAt_append_cons_iff, (counted_of_run h).previous]

/-- The characters seen since `start` are the pending ones. -/
theorem pending_eq_drop {s : Scan} {cs : List Char} (h : initial.run cs = .ok s) :
    s.pending.reverse = cs.drop s.start := by
  obtain ⟨ps, hs⟩ := holds_of_run h
  obtain ⟨before, hcs⟩ : ∃ before, cs = before ++ s.pending.reverse := by
    cases hi : s.inside with
    | false => exact ⟨_, (hs.outside hi).1⟩
    | true => exact ⟨_, (hs.inside hi).1.trans (List.append_cons ..)⟩
  have hstart : before.length = s.start := by
    have hlength := (placed_of_run h).start
    rw [hcs, List.length_append, List.length_reverse] at hlength
    exact (Nat.add_right_cancel hlength).symm
  rw [hcs, ← hstart, List.drop_left]

/-- How the tokens and the pending characters go with the bare brackets. -/
structure Settled (s : Scan) (seen : List Char) : Prop where
  /-- Every bare `>` has closed a substitution. -/
  substitutions : substitutionCount s.tokens = bareCount '>' seen
  start : s.inside = false → s.start = 0 ∨ BareAt '>' seen (s.start - 1)
  pending : s.inside = false → ∀ i, s.start ≤ i → ∀ b, isBracket b = true → ¬BareAt b seen i

theorem settled_initial : initial.Settled [] where
  substitutions := rfl
  start _ := Or.inl rfl
  pending _ _ _ _ _ hbare := absurd hbare.lt_length (Nat.not_lt_zero _)

variable {s : Scan} {seen : List Char}

theorem Settled.open (h : s.Settled seen) :
    (s.restart '<' s.flush true).Settled (seen ++ ['<']) where
  substitutions := by
    have hno : ¬('<' = '>' ∧ seen.getLast? ≠ some '\\') := fun he => absurd he.1 (by decide)
    rw [bareCount_concat, if_neg hno, ← h.substitutions]
    exact s.substitutionCount_flush
  start hi := nomatch hi
  pending hi := nomatch hi

theorem Settled.close (h : s.Settled seen) (hposition : s.position = seen.length)
    (hlast : seen.getLast? ≠ some '\\') (b : Body) :
    (s.restart '>' (s.tokens ++ [b.token]) false).Settled (seen ++ ['>']) := by
  have hbare : BareAt '>' (seen ++ ['>']) seen.length := bareAt_append_cons_iff.mpr ⟨rfl, hlast⟩
  constructor
  · rw [bareCount_concat, if_pos ⟨rfl, hlast⟩, ← h.substitutions]
    exact substitutionCount_concat_body s.tokens b
  · intro _
    apply Or.inr
    rwa [restart, hposition]
  · intro _ i (hi : s.position + 1 ≤ i) c _ hc
    have hlt := hc.lt_length
    rw [List.length_append, List.length_singleton] at hlt
    omega

theorem Settled.push {c : Char} (h : s.Settled seen)
    (hc : isBracket c = true → seen.getLast? = some '\\' ∨ c = '<' ∧ s.inside = true) :
    (s.push c).Settled (seen ++ [c]) := by
  constructor
  · have hno : ¬(c = '>' ∧ seen.getLast? ≠ some '\\') := by
      rintro ⟨rfl, hlast⟩
      exact (hc (by decide)).elim hlast fun he => absurd he.1 (by decide)
    rw [bareCount_concat, if_neg hno]
    exact h.substitutions
  · intro hi
    exact (h.start hi).imp_right fun hbare => bareAt_concat_iff.mpr (Or.inl hbare)
  · intro (hi : s.inside = false) i hle b hb hbare
    rcases bareAt_concat_iff.mp hbare with hbare | ⟨-, rfl, hlast⟩
    · exact h.pending hi i hle b hb hbare
    · exact (hc hb).elim hlast fun he => absurd (hi.symm.trans he.2) Bool.false_ne_true

theorem settled_of_run {s : Scan} {cs : List Char} (h : initial.run cs = .ok s) :
    s.Settled cs := by
  -- The state before each character is that of a run, too, which gives its position.
  refine (run_induction (P := fun s seen => s.Settled seen ∧ initial.run seen = .ok s) ?_
    ⟨settled_initial, rfl⟩ h).1
  rintro s seen c t ⟨hs, hrun⟩ hc
  have hprevious := (counted_of_run hrun).previous
  refine ⟨?_, ?_⟩
  · rcases step_cases hc with ⟨rfl, -, -, rfl⟩ | ⟨rfl, hp, -, b, -, -, rfl⟩ | ⟨hpush, rfl⟩
    · exact hs.open
    · exact hs.close (placed_of_run hrun).position (hprevious ▸ hp) b
    · exact hs.push (hprevious ▸ hpush)
  · rw [run_append, hrun]
    change s.run [c] = .ok t
    rw [run, hc]
    rfl

/-- If as many brackets of both kinds are counted as not escaped, these are the bare ones, and if
the reader comes to the end of the template, then it stands outside of substitutions, has collected
the run behind the last of them, and has one token for each bare `<`. -/
theorem ends_outside {template : String} (hne : template ≠ "")
    (hcount : unescapedCount '<' template.toList = unescapedCount '>' template.toList) :
    let cs := template.toList
    (∀ b, isBracket b = true → unescapedCount b cs = bareCount b cs) ∧
    (∀ seen c rest s, cs = seen ++ c :: rest → initial.run seen = .ok s →
      ∀ b, BareAt b cs seen.length ↔ c = b ∧ s.previous ≠ some '\\') ∧
    parse template = (initial.run cs).map flush ∧
    ∀ s, initial.run cs = .ok s →
      s.inside = false ∧
      s.pending.reverse = cs.drop s.start ∧ (s.start = 0 ∨ BareAt '>' cs (s.start - 1)) ∧
      (∀ i, s.start ≤ i → ∀ b, isBracket b = true → ¬BareAt b cs i) ∧
      substitutionCount s.tokens = unescapedCount '<' cs := by
  intro cs
  have hcs : cs ≠ [] := fun hnil => hne (String.toList_eq_nil_iff.mp hnil)
  have hbare : ∀ b, isBracket b = true → unescapedCount b cs = bareCount b cs := by
    intro b hb
    apply unescapedCount_eq
    rintro rfl
    exact absurd hb (by decide)
  refine ⟨hbare, ?_, ?_, ?_⟩
  · intro seen c rest s hsplit hrun b
    rw [hsplit]
    exact bareAt_iff_previous hrun b c rest
  · exact (parseChars_of_ne_nil hcs).trans (if_neg (not_not.mpr hcount))
  · intro s hrun
    have hi : s.inside = false := (inside_eq_false_iff hrun).mpr hcount
    have hsettled := settled_of_run hrun
    refine ⟨hi, pending_eq_drop hrun, hsettled.start hi, hsettled.pending hi, ?_⟩
    rw [hcount, hbare '>' (by decide)]
    exact hsettled.substitutions

/-- Two substitutions are read between brackets that are not theirs. -/
theorem ends_outside_oxen :
    let template := "\\<<@a>, <(cap ox)>\\>"
    let cs := template.toList
    template ≠ "" ∧ unescapedCount '<' cs = 2 ∧ unescapedCount '>' cs = 2 ∧
      ∃ s, initial.run cs = .ok s ∧ s.flush = [.literal "<", .binding "a", .literal ", ",
          .expression "capitalize" (.nonTerminal "ox"), .literal ">"] ∧
        s.inside = false ∧ s.pending.reverse = cs.drop s.start ∧
        substitutionCount s.tokens = 2 := by
  intro template cs
  have hne : template ≠ "" := by decide
  have hopen : unescapedCount '<' cs = 2 := by decide
  have hclose : unescapedCount '>' cs = 2 := by decide
  obtain ⟨-, -, hparse, hend⟩ := ends_outside hne (hopen.trans hclose.symm)
  have htokens : parse template = .ok [.literal "<", .binding "a", .literal ", ",
      .expression "capitalize" (.nonTerminal "ox"), .literal ">"] := by
    decide +kernel
  obtain ⟨s, hrun, hflush⟩ := Answer.map_eq_ok_iff.mp (hparse.symm.trans htokens)
  obtain ⟨hi, hpending, -, -, hsubstitutions⟩ := hend s hrun
  exact ⟨hne, hopen, hclose, s, hrun, hflush, hi, hpending, hsubstitutions.trans hopen⟩

end Scan

end TaggedGrammar.Template
