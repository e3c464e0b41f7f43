import TaggedGrammar.Yaml.Scalar.Written

/-!
# Cursors behind written characters

A reader of a scalar or a token takes some characters and answers with the cursor behind them.
`Cursor.past` is that cursor, whatever took the characters, so readers that follow each other
are put together by appending what they took. It is described for characters without a carriage
return, which no written text holds.

## Main statements

* `Cursor.rest_past`, `Cursor.index_past`, `Cursor.past_append`: where the cursor stands.
* `Cursor.skip_eq_past`, `Cursor.skipWhile_eq_past`, `Cursor.lineBreak?_eq_past`: the moves of
  the readers.
* `Cursor.column_past_fold`, `Cursor.line_past_fold`: the cursor behind a line break and the
  spaces that follow it.
-/

namespace TaggedGrammar.Yaml

/-! ### Classes of characters -/

theorem isBreak_of_isTextBreak {c : Char} (h : isTextBreak c = true) : isBreak c = true := by
  simp only [isTextBreak, Bool.or_eq_true, beq_iff_eq] at h
  rcases h with ((rfl | rfl) | rfl) | rfl <;> rfl

theorem isGap_of_isBreak {c : Char} (h : isBreak c = true) : isGap c = true := by
  simp [isGap, h]

theorem isBreak_eq_false_of_isGap {c : Char} (h : isGap c = false) : isBreak c = false := by
  cases hb : isBreak c with
  | false => rfl
  | true => rw [isGap_of_isBreak hb] at h; cases h

theorem isWhite_eq_false_of_isGap {c : Char} (h : isGap c = false) : isWhite c = false := by
  cases hw : isWhite c with
  | false => rfl
  | true => simp [isGap, hw] at h

theorem isTextBreak_eq_false_of_isGap {c : Char} (h : isGap c = false) : isTextBreak c = false := by
  cases hb : isTextBreak c with
  | false => rfl
  | true => rw [isGap_of_isBreak (isBreak_of_isTextBreak hb)] at h; cases h

theorem ne_space_of_isGap {c : Char} (h : isGap c = false) : c ≠ ' ' := by
  rintro rfl
  cases h

/-- The character as which the end of a line is read. -/
def readBreak (b : Char) : Char := if b == '\u0085' then '\n' else b

theorem isWhite_eq_false_of_isBreak {c : Char} (h : isBreak c = true) : isWhite c = false := by
  simp only [isBreak, Bool.or_eq_true, beq_iff_eq] at h
  rcases h with (((rfl | rfl) | rfl) | rfl) | rfl <;> rfl

theorem isBreak_eq_false_of_isWhite {c : Char} (h : isWhite c = true) : isBreak c = false := by
  simp only [isWhite, Bool.or_eq_true, beq_iff_eq] at h
  rcases h with rfl | rfl <;> rfl

theorem mem_spaces {n : Nat} {c : Char} (h : c ∈ spaces n) : c = ' ' := List.eq_of_mem_replicate h

@[simp] theorem length_spaces (n : Nat) : (spaces n).length = n := List.length_replicate

theorem spaces_succ (n : Nat) : spaces (n + 1) = ' ' :: spaces n := rfl

/-! ### Fronts of lists -/

/-- The elements up to the first that fails a condition, where it is known which one fails. -/
theorem takeWhile_append_of_head {p : Char → Bool} {cs k : List Char} (h : ∀ c ∈ cs, p c = true)
    (hk : ∀ c ∈ k.head?, p c = false) : (cs ++ k).takeWhile p = cs := by
  rw [List.takeWhile_append_of_pos h]
  cases k with
  | nil => simp
  | cons c k => simp [hk c rfl]

/-- A list divides where a condition first fails. -/
theorem exists_front (p : Char → Bool) (cs : List Char) :
    ∃ ds es, cs = ds ++ es ∧ (∀ c ∈ ds, p c = true) ∧ es.head?.any p = false := by
  induction cs with
  | nil => exact ⟨[], [], rfl, by simp, rfl⟩
  | cons c cs ih =>
      cases hc : p c with
      | false => exact ⟨[], c :: cs, rfl, by simp, hc⟩
      | true =>
          obtain ⟨ds, es, rfl, hds, hes⟩ := ih
          exact ⟨c :: ds, es, rfl, List.forall_mem_cons.mpr ⟨hc, hds⟩, hes⟩

/-! ### Moving on -/

namespace Cursor

/-- The cursor behind characters that stand at it, none of which is a carriage return. -/
def past (c : Cursor) : List Char → Cursor
  | [] => c
  | ch :: cs => (if isBreak ch then c.newLine (c.rest.drop 1) 1 else c.skip 1).past cs

@[simp] theorem past_nil (c : Cursor) : c.past [] = c := rfl

theorem past_cons (c : Cursor) (ch : Char) (cs : List Char) :
    c.past (ch :: cs) = (c.past [ch]).past cs := rfl

theorem past_append (c : Cursor) (cs ds : List Char) : c.past (cs ++ ds) = (c.past cs).past ds := by
  induction cs generalizing c with
  | nil => rfl
  | cons ch cs ih => exact ih _

theorem rest_past_drop (c : Cursor) (cs : List Char) :
    (c.past cs).rest = c.rest.drop cs.length := by
  induction cs generalizing c with
  | nil => rfl
  | cons ch cs ih =>
      have hfirst : (c.past [ch]).rest = c.rest.drop 1 := by
        simp only [past]
        split <;> rfl
      rw [past_cons, ih, hfirst, List.drop_drop, List.length_cons, Nat.add_comm]

theorem rest_past {c : Cursor} {cs k : List Char} (h : c.rest = cs ++ k) :
    (c.past cs).rest = k := by
  rw [rest_past_drop, h, List.drop_left]

theorem index_past (c : Cursor) (cs : List Char) : (c.past cs).index = c.index + cs.length := by
  induction cs generalizing c with
  | nil => rfl
  | cons ch cs ih =>
      have hfirst : (c.past [ch]).index = c.index + 1 := by
        simp only [past]
        split <;> rfl
      rw [past_cons, ih, hfirst, List.length_cons]
      omega

theorem line_le_past (c : Cursor) (cs : List Char) : c.line ≤ (c.past cs).line := by
  induction cs generalizing c with
  | nil => exact Nat.le_refl _
  | cons ch cs ih =>
      have hfirst : c.line ≤ (c.past [ch]).line := by
        simp only [past]
        split
        · exact Nat.le_succ _
        · exact Nat.le_refl _
      exact Nat.le_trans hfirst (ih _)

section Line

variable {c : Cursor} {cs k : List Char} (hb : ∀ ch ∈ cs, isBreak ch = false)
include hb

theorem line_past : (c.past cs).line = c.line := by
  induction cs generalizing c with
  | nil => rfl
  | cons ch cs ih =>
      obtain ⟨hch, hcs⟩ := List.forall_mem_cons.mp hb
      rw [past, hch, ih hcs]
      rfl

theorem column_le_past : c.column ≤ (c.past cs).column := by
  induction cs generalizing c with
  | nil => exact Nat.le_refl _
  | cons ch cs ih =>
      obtain ⟨hch, hcs⟩ := List.forall_mem_cons.mp hb
      rw [past, hch, if_neg Bool.false_ne_true]
      have hskip : c.column ≤ (c.skip 1).column := Nat.le_add_right _ _
      exact Nat.le_trans hskip (ih hcs)

theorem column_past (h : c.rest = cs ++ k) (hm : byteOrderMark ∉ cs) :
    (c.past cs).column = c.column + cs.length := by
  induction cs generalizing c with
  | nil => rfl
  | cons ch cs ih =>
      obtain ⟨hch, hcs⟩ := List.forall_mem_cons.mp hb
      obtain ⟨hne, hout⟩ := not_or.mp (mt List.mem_cons.mpr hm)
      have hskip : (c.skip 1).column = c.column + 1 := by
        simp [skip, h, Ne.symm hne]
      have hrest : (c.skip 1).rest = cs ++ k := by
        simp [skip, h]
      rw [past, hch, if_neg Bool.false_ne_true, ih hcs hrest hout, hskip, List.length_cons]
      omega

theorem skip_eq_past (h : c.rest = cs ++ k) : c.skip cs.length = c.past cs := by
  induction cs generalizing c with
  | nil => simp [skip]
  | cons ch cs ih =>
      obtain ⟨hch, hcs⟩ := List.forall_mem_cons.mp hb
      have hrest : (c.skip 1).rest = cs ++ k := by
        simp [skip, h]
      have hskip : c.skip (cs.length + 1) = (c.skip 1).skip cs.length := by
        simp only [skip, h, List.cons_append, List.drop_succ_cons, List.drop_zero,
          List.take_succ_cons, List.take_zero, List.countP_cons, List.countP_nil, Cursor.mk.injEq,
          true_and]
        omega
      rw [List.length_cons, hskip, ih hcs hrest, past, hch, if_neg Bool.false_ne_true]

theorem skipWhile_eq_past {p : Char → Bool} (h : c.rest = cs ++ k) (hp : ∀ ch ∈ cs, p ch = true)
    (hk : ∀ ch ∈ k.head?, p ch = false) : c.skipWhile p = c.past cs := by
  rw [skipWhile, h, takeWhile_append_of_head hp hk]
  exact skip_eq_past hb h

end Line

theorem skip_one_eq_past {c : Cursor} {ch : Char} {k : List Char} (h : c.rest = ch :: k)
    (hb : isBreak ch = false) : c.skip 1 = c.past [ch] := by
  have hone : c.rest = [ch] ++ k := h
  exact skip_eq_past (by simpa using hb) hone

theorem skipSpaces_eq_past {c : Cursor} {n : Nat} {k : List Char} (h : c.rest = spaces n ++ k)
    (hk : k.head? ≠ some ' ') : c.skipSpaces = c.past (spaces n) := by
  refine skipWhile_eq_past ?_ h ?_ ?_
  · intro ch hm
    rw [mem_spaces hm]
    rfl
  · intro ch hm
    rw [mem_spaces hm]
    rfl
  · intro ch hm
    simpa using fun he : ch = ' ' => hk (he ▸ hm)

theorem skipWhile_eq_self {c : Cursor} {p : Char → Bool} (hk : ∀ ch ∈ c.rest.head?, p ch = false) :
    c.skipWhile p = c := by
  have hnone : c.rest = [] ++ c.rest := rfl
  exact skipWhile_eq_past (by simp) hnone (by simp) hk

theorem lineBreak?_eq_past {c : Cursor} {b : Char} {k : List Char} (h : c.rest = b :: k)
    (hb : isTextBreak b = true) : c.lineBreak? = some (readBreak b, c.past [b]) := by
  simp only [isTextBreak, Bool.or_eq_true, beq_iff_eq] at hb
  rcases hb with ((rfl | rfl) | rfl) | rfl <;> simp [lineBreak?, h, past, isBreak, readBreak]

theorem lineBreak?_eq_none {c : Cursor} (h : ∀ ch ∈ c.rest.head?, isBreak ch = false) :
    c.lineBreak? = none := by
  unfold lineBreak?
  cases hr : c.rest with
  | nil => rfl
  | cons ch cs =>
      have hch : isBreak ch = false := h ch (by rw [hr]; rfl)
      simp only [isBreak, Bool.or_eq_false_iff, beq_eq_false_iff_ne] at hch
      simp [hch]

/-! ### New lines -/

theorem rest_past_one {c : Cursor} {b : Char} {k : List Char} (h : c.rest = b :: k) :
    (c.past [b]).rest = k := by
  have hone : c.rest = [b] ++ k := h
  exact rest_past hone

theorem column_past_one {c : Cursor} {ch : Char} {k : List Char} (h : c.rest = ch :: k)
    (hb : isBreak ch = false) (hm : ch ≠ byteOrderMark) : (c.past [ch]).column = c.column + 1 := by
  have hone : c.rest = [ch] ++ k := h
  exact column_past (by simpa using hb) hone (by simpa using Ne.symm hm)

theorem past_fold (c : Cursor) (m : Nat) : c.past (fold m) = (c.past ['\n']).past (spaces m) := rfl

theorem column_past_fold {c : Cursor} {m : Nat} {k : List Char} (h : c.rest = fold m ++ k) :
    (c.past (fold m)).column = m := by
  have hrest : (c.past ['\n']).rest = spaces m ++ k := rest_past_one h
  have hb : ∀ ch ∈ spaces m, isBreak ch = false := fun ch hm => mem_spaces hm ▸ rfl
  have hm : byteOrderMark ∉ spaces m := fun hm => absurd (mem_spaces hm) (by decide)
  calc (c.past (fold m)).column
      = (c.past ['\n']).column + (spaces m).length := column_past hb hrest hm
    _ = 0 + m := by rw [length_spaces]; rfl
    _ = m := Nat.zero_add m

theorem line_past_fold (c : Cursor) (m : Nat) : (c.past (fold m)).line = c.line + 1 := by
  have hb : ∀ ch ∈ spaces m, isBreak ch = false := fun ch hm => mem_spaces hm ▸ rfl
  rw [past_fold, line_past hb]
  rfl

end Cursor

/-- A line may begin with these characters behind its indentation: there is nothing left of the
text, or a character at which neither a gap nor a comment begins, and no mark of a document. -/
structure NextLine (m : Nat) (k : List Char) : Prop where
  head : ∀ ch ∈ k.head?, isGap ch = false ∧ ch ≠ '#' ∧ ch ≠ byteOrderMark
  mark : atDocumentMark (spaces m ++ k) = false

theorem atDocumentMark_of_isBreak {c : Char} (k : List Char) (h : isBreak c = true) :
    atDocumentMark (c :: k) = false := by
  simp only [isBreak, Bool.or_eq_true, beq_iff_eq] at h
  rcases h with (((rfl | rfl) | rfl) | rfl) | rfl <;> rfl

theorem atDocumentMark_of_atGap {cs : List Char} (c : Char) (h : atGap cs = true) :
    atDocumentMark (c :: cs) = false := by
  unfold atDocumentMark
  split
  · rename_i he
    obtain ⟨-, rfl⟩ := List.cons.inj he
    cases h
  · rename_i he
    obtain ⟨-, rfl⟩ := List.cons.inj he
    cases h
  · rfl

theorem atDocumentMark_spaces {n : Nat} (k : List Char) (h : 0 < n) :
    atDocumentMark (spaces n ++ k) = false := by
  cases n with
  | zero => cases h
  | succ n => rfl

end TaggedGrammar.Yaml
