import TaggedGrammar.Proofs.Template.Reading

/-!
# Positions in templates

A bracket is bare at a position if it stands there behind no backslash. The reader counts the
bare brackets beforehand, and while it reads it knows its position and that of the bracket
behind which it began to collect characters.

## Main statements

* `unescapedCount_eq`: the number that the reader computes is that of the bare brackets.
* `Scan.placed_of_run`: what the positions in a state of the reader are.
* `Scan.exists_of_run_eq_error`: an error comes from one character.
-/

namespace TaggedGrammar.Template

/-! ### Bare brackets -/

/-- The character stands at the position, and not behind a backslash. -/
def BareAt (c : Char) (cs : List Char) (i : Nat) : Prop :=
  cs[i]? = some c ∧ (cs.take i).getLast? ≠ some '\\'

instance (c : Char) (cs : List Char) : DecidablePred (BareAt c cs) :=
  fun _ => inferInstanceAs (Decidable (_ ∧ _))

/-- The number of positions at which the character is bare. -/
def bareCount (c : Char) (cs : List Char) : Nat :=
  (List.range cs.length).countP fun i => BareAt c cs i

theorem bareAt_append_cons_iff {before after : List Char} {c d : Char} :
    BareAt c (before ++ d :: after) before.length ↔ d = c ∧ before.getLast? ≠ some '\\' := by
  simp [BareAt]

theorem bareAt_append_iff {cs ds : List Char} {c : Char} {i : Nat} (h : i < cs.length) :
    BareAt c (cs ++ ds) i ↔ BareAt c cs i := by
  unfold BareAt
  rw [List.getElem?_append_left h, List.take_append_of_le_length h.le]

theorem BareAt.lt_length {c : Char} {cs : List Char} {i : Nat} (h : BareAt c cs i) :
    i < cs.length :=
  (List.getElem?_eq_some_iff.mp h.1).1

/-- One more character is bare at the end or not at all. -/
theorem bareAt_concat_iff {cs : List Char} {c d : Char} {i : Nat} :
    BareAt c (cs ++ [d]) i ↔ BareAt c cs i ∨ i = cs.length ∧ d = c ∧ cs.getLast? ≠ some '\\' := by
  by_cases hlt : i < cs.length
  · rw [bareAt_append_iff hlt, or_iff_left fun h => hlt.ne h.1]
  · have hout : ¬BareAt c cs i := fun h => hlt h.lt_length
    rw [or_iff_right hout]
    constructor
    · intro h
      have hle := h.lt_length
      rw [List.length_append, List.length_singleton] at hle
      obtain rfl : i = cs.length := by omega
      exact ⟨rfl, bareAt_append_cons_iff.mp h⟩
    · rintro ⟨rfl, h⟩
      exact bareAt_append_cons_iff.mpr h

theorem bareCount_concat (c : Char) (cs : List Char) (d : Char) :
    bareCount c (cs ++ [d]) = bareCount c cs +
      if d = c ∧ cs.getLast? ≠ some '\\' then 1 else 0 := by
  have hbefore : (List.range cs.length).countP (fun i => decide (BareAt c (cs ++ [d]) i)) =
      bareCount c cs := by
    refine List.countP_congr fun i hi => ?_
    simpa using bareAt_append_iff (List.mem_range.mp hi)
  unfold bareCount at hbefore ⊢
  rw [List.length_append, List.length_singleton, List.range_succ, List.countP_append, hbefore,
    List.countP_singleton]
  simp only [bareAt_append_cons_iff, decide_eq_true_eq]

/-- The reader counts the bare brackets. -/
theorem unescapedCount_eq (bracket : Char) (hb : bracket ≠ '\\') (cs : List Char) :
    unescapedCount bracket cs = bareCount bracket cs := by
  induction cs using List.reverseRecOn with
  | nil => rfl
  | append_singleton cs c ih => rw [unescapedCount_concat bracket hb, bareCount_concat, ih]

/-! ### The positions of a state -/

namespace Scan

/-- What the positions in a state are. -/
structure Placed (s : Scan) (seen : List Char) : Prop where
  position : s.position = seen.length
  start : s.start + s.pending.length = seen.length
  /-- The first bare `>` closes the substitution. -/
  body : s.inside = true → ∀ i, ¬ BareAt '>' s.pending.reverse i

theorem placed_initial : initial.Placed [] where
  position := rfl
  start := rfl
  body h := nomatch h

theorem Placed.restart {s : Scan} {seen : List Char} (h : s.Placed seen) (c : Char)
    (tokens : List Token) (inside : Bool) :
    (s.restart c tokens inside).Placed (seen ++ [c]) where
  position := by simp [Scan.restart, h.position]
  start := by simp [Scan.restart, h.position]
  body _ i hi := absurd hi.lt_length (Nat.not_lt_zero i)

theorem Placed.push {s : Scan} {seen : List Char} {c : Char} (h : s.Placed seen)
    (hc : c = '>' → s.inside = true → s.pending.head? = some '\\') :
    (s.push c).Placed (seen ++ [c]) := by
  constructor
  · simp [Scan.push, h.position]
  · have hstart := h.start
    simp only [Scan.push, List.length_cons, List.length_append, List.length_nil]
    omega
  · intro (hinside : s.inside = true) i hi
    have hpending : (s.push c).pending.reverse = s.pending.reverse ++ [c] := by
      simp [Scan.push]
    rw [hpending, bareAt_concat_iff, List.getLast?_reverse] at hi
    rcases hi with hi | ⟨-, hgt, hlast⟩
    · exact h.body hinside i hi
    · exact hlast (hc hgt hinside)

theorem placed_of_run {s : Scan} {cs : List Char} (h : initial.run cs = .ok s) :
    s.Placed cs := by
  refine (run_induction (P := fun s seen => s.Placed seen ∧ ∃ ps, s.Holds seen ps) ?_
    ⟨placed_initial, [], holds_initial⟩ h).1
  rintro s seen c t ⟨hplaced, ps, hholds⟩ hc
  refine ⟨?_, ?_⟩
  · rcases step_cases hc with ⟨rfl, -, -, rfl⟩ | ⟨rfl, -, -, b, -, -, rfl⟩ | ⟨hpush, rfl⟩
    · exact hplaced.restart _ _ _
    · exact hplaced.restart _ _ _
    · refine hplaced.push ?_
      rintro rfl -
      rcases hpush (by decide) with hp | ⟨he, -⟩
      · exact hholds.previous.mp hp
      · exact absurd he (by decide)
  · exact hholds.exists_step hc

/-- An error comes from one character, behind others that were read. -/
theorem exists_of_run_eq_error {s : Scan} {cs : List Char} {e : ParseError}
    (h : s.run cs = .error e) : ∃ seen c rest t, cs = seen ++ c :: rest ∧ s.run seen = .ok t ∧
      t.step c = .error e := by
  induction cs generalizing s with
  | nil => cases h
  | cons c cs ih =>
      cases hc : s.step c with
      | error e' =>
          rw [run, hc] at h
          obtain rfl : e' = e := Except.error.inj h
          exact ⟨[], c, cs, s, rfl, rfl, hc⟩
      | ok next =>
          rw [run, hc] at h
          obtain ⟨seen, d, rest, t, rfl, hrun, ht⟩ := ih h
          refine ⟨c :: seen, d, rest, t, rfl, ?_, ht⟩
          rw [run, hc]
          exact hrun

end Scan

end TaggedGrammar.Template
