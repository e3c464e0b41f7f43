import TaggedGrammar.Proofs.Yaml.Scalar.Quoted

/-!
# Texts between single quotes

A text that single quotes can hold is read back from what `writeSingle` writes, but for U+0085
(`recalledSingle`). A run of line ends is the step of the argument where there is one: its first
line feed is doubled, and the spaces of the next line stand behind the last.

## Main statements

* `writeSingle_doubled`: how a run of line ends is written.
* `quotes_writeSingle`: what is read of the text.
-/

namespace TaggedGrammar.Yaml

/-! ### Texts between single quotes -/

/-- What a text must be so that single quotes can hold it. -/
structure SingleText (cs : List Char) : Prop where
  chars : ∀ ch ∈ cs, isGap ch = true → ch = ' ' ∨ isTextBreak ch = true
  space_break : hasPair (· == ' ') isTextBreak cs = false
  break_space : hasPair isTextBreak (· == ' ') cs = false

theorem SingleText.tail {ch : Char} {cs : List Char} (h : SingleText (ch :: cs)) :
    SingleText cs := by
  obtain ⟨hchars, hspace, hbreak⟩ := h
  refine ⟨(List.forall_mem_cons.mp hchars).2, ?_, ?_⟩
  · cases cs with
    | nil => rfl
    | cons d ds => exact (Bool.or_eq_false_iff.mp hspace).2
  · cases cs with
    | nil => rfl
    | cons d ds => exact (Bool.or_eq_false_iff.mp hbreak).2

theorem SingleText.append {bs cs : List Char} (h : SingleText (bs ++ cs)) : SingleText cs := by
  induction bs with
  | nil => exact h
  | cons b bs ih => exact ih h.tail

theorem hasPair_append {p q : Char → Bool} (bs : List Char) {d : Char} {ds : List Char}
    (h : hasPair p q (bs ++ d :: ds) = false) (hne : bs ≠ []) (hbs : ∀ b ∈ bs, p b = true) :
    q d = false := by
  induction bs with
  | nil => exact absurd rfl hne
  | cons b bs ih =>
      obtain ⟨hb, hrest⟩ := List.forall_mem_cons.mp hbs
      cases bs with
      | nil => simpa [hasPair, hb] using (Bool.or_eq_false_iff.mp h).1
      | cons b' bs => exact ih (Bool.or_eq_false_iff.mp h).2 (by simp) hrest

theorem SingleText.behind_space {cs : List Char} (h : SingleText (' ' :: cs))
    (hcs : cs.head? ≠ some ' ') : ∀ ch ∈ cs.head?, isGap ch = false := by
  cases cs with
  | nil => nofun
  | cons d ds =>
      rintro ch ⟨⟩
      cases hgap : isGap d with
      | false => rfl
      | true =>
          rcases h.tail.chars d List.mem_cons_self hgap with rfl | hbreak
          · exact absurd rfl hcs
          · have hnone : isTextBreak d = false :=
              hasPair_append [' '] h.space_break (by simp) (by simp)
            rw [hbreak] at hnone
            cases hnone

theorem SingleText.behind_breaks {bs cs : List Char} (h : SingleText (bs ++ cs)) (hne : bs ≠ [])
    (hbs : ∀ b ∈ bs, isTextBreak b = true) (hcs : cs.head?.any isTextBreak = false) :
    ∀ ch ∈ cs.head?, isGap ch = false := by
  cases cs with
  | nil => nofun
  | cons d ds =>
      rintro ch ⟨⟩
      cases hgap : isGap d with
      | false => rfl
      | true =>
          rcases h.append.chars d List.mem_cons_self hgap with rfl | hbreak
          · cases hasPair_append _ h.break_space hne hbs
          · rw [List.head?_cons, Option.any_some, hbreak] at hcs
            cases hcs

section Single

variable {folds : Bool} {indent column : Nat} {previous : Option Char} {cs : List Char}

theorem writeSingle_break {b : Char} (hb : isTextBreak b = true) :
    writeSingle folds indent previous column (b :: cs) =
      (if b == '\n' && !previous.any isTextBreak then ['\n'] else []) ++ b ::
        ((if cs.head?.any isTextBreak then [] else spaces indent) ++
          writeSingle folds indent (some b) indent cs) := by
  have hquote : (b == '\'') = false := by
    rw [beq_eq_false_iff_ne]
    rintro rfl
    cases hb
  simp [writeSingle, hquote, hb]

theorem writeSingle_char {ch : Char} (hgap : isGap ch = false) (hquote : ch ≠ '\'') :
    writeSingle folds indent previous column (ch :: cs) =
      ch :: writeSingle folds indent (some ch) (column + 1) cs := by
  have hbreak : isTextBreak ch = false := isTextBreak_eq_false_of_isGap hgap
  simp [writeSingle, hquote, hbreak, ne_space_of_isGap hgap]

/-- A space is written as itself, or a line is broken there. -/
theorem writeSingle_space (folds : Bool) (indent column : Nat) (previous : Option Char)
    (cs : List Char) :
    (folds = true ∧ cs.head? ≠ some ' ' ∧
      writeSingle folds indent previous column (' ' :: cs) =
        fold indent ++ writeSingle folds indent (some ' ') indent cs) ∨
    writeSingle folds indent previous column (' ' :: cs) =
      ' ' :: writeSingle folds indent (some ' ') (column + 1) cs := by
  have hbreak : isTextBreak ' ' = false := rfl
  rw [writeSingle, if_neg (by decide), hbreak, if_neg Bool.false_ne_true]
  split
  · rename_i h
    simp only [Bool.and_eq_true, bne_iff_ne] at h
    exact Or.inl ⟨h.1.1.1.1.1.1, h.1.2, rfl⟩
  · exact Or.inr rfl

theorem writeSingle_space_again :
    writeSingle folds indent (some ' ') column (' ' :: cs) =
      ' ' :: writeSingle folds indent (some ' ') (column + 1) cs := by
  simp [writeSingle, isTextBreak]

/-- In a row of line ends each one behind the first is written as itself. -/
theorem writeSingle_breaks (folds : Bool) (indent column : Nat) {b p : Char} {bs : List Char}
    (hbs : ∀ ch ∈ b :: bs, isTextBreak ch = true) (hcs : cs.head?.any isTextBreak = false)
    (hp : isTextBreak p = true) :
    ∃ last, isTextBreak last = true ∧
      writeSingle folds indent (some p) column (b :: bs ++ cs) =
        b :: bs ++ (spaces indent ++ writeSingle folds indent (some last) indent cs) := by
  induction bs generalizing b p column with
  | nil =>
      have hb := hbs b (List.mem_singleton_self b)
      refine ⟨b, hb, ?_⟩
      rw [List.singleton_append, writeSingle_break hb]
      simp [hp, hcs]
  | cons b' bs ih =>
      obtain ⟨hb, hbs⟩ := List.forall_mem_cons.mp hbs
      obtain ⟨last, hlast, he⟩ := ih indent hbs hb
      refine ⟨last, hlast, ?_⟩
      rw [List.cons_append, writeSingle_break hb, he]
      simp [hp, hbs b' List.mem_cons_self]

theorem writeSingle_doubled (folds : Bool) (indent column : Nat) {b : Char} {bs : List Char}
    (hbs : ∀ ch ∈ b :: bs, isTextBreak ch = true) (hcs : cs.head?.any isTextBreak = false)
    (hprevious : previous.any isTextBreak = false) :
    ∃ last, isTextBreak last = true ∧
      writeSingle folds indent previous column (b :: bs ++ cs) =
        doubled (b :: bs) ++ (spaces indent ++ writeSingle folds indent (some last) indent cs) := by
  obtain ⟨hb, hrest⟩ := List.forall_mem_cons.mp hbs
  cases bs with
  | nil =>
      refine ⟨b, hb, ?_⟩
      rw [List.singleton_append, writeSingle_break hb]
      simp [hprevious, hcs, doubled]
  | cons b' bs =>
      obtain ⟨last, hlast, he⟩ := writeSingle_breaks folds indent indent hrest hcs hb
      refine ⟨last, hlast, ?_⟩
      rw [List.cons_append, writeSingle_break hb, he]
      simp [hprevious, hrest b' List.mem_cons_self, doubled]

theorem isGap_head_writeSingle (k : List Char) (h : ∀ ch ∈ cs.head?, isGap ch = false) :
    ∀ ch ∈ (writeSingle folds indent previous column cs ++ '\'' :: k).head?, isGap ch = false := by
  cases cs with
  | nil =>
      rintro ch ⟨⟩
      rfl
  | cons d ds =>
      have hd : isGap d = false := h d rfl
      by_cases hquote : d = '\''
      · subst hquote
        rintro ch ⟨⟩
        rfl
      · rw [writeSingle_char hd hquote]
        rintro ch ⟨⟩
        exact hd

/-- A space in a text that single quotes can hold leads to a character on its line. -/
theorem endsOnLine_writeSingle (k : List Char) (h : SingleText (' ' :: cs)) :
    EndsOnLine (writeSingle folds indent (some ' ') column cs ++ '\'' :: k) := by
  induction cs generalizing column with
  | nil => exact endsOnLine_of_isGap (by rintro ch ⟨⟩; rfl)
  | cons d ds ih =>
      cases hd : isGap d with
      | false => exact endsOnLine_of_isGap (isGap_head_writeSingle k (by rintro ch ⟨⟩; exact hd))
      | true =>
          rcases h.tail.chars d List.mem_cons_self hd with rfl | hbreak
          · rw [writeSingle_space_again]
            exact (ih h.tail).space
          · have hnone : isTextBreak d = false := (Bool.or_eq_false_iff.mp h.space_break).1
            rw [hbreak] at hnone
            cases hnone

theorem quotes_writeSingle_breaks {k : List Char} {b : Char} {bs : List Char}
    (h : SingleText (b :: bs ++ cs)) (hbs : ∀ ch ∈ b :: bs, isTextBreak ch = true)
    (hcs : cs.head?.any isTextBreak = false) (hprevious : previous.any isTextBreak = false)
    (hpos : 0 < indent) (hrest : ∀ last, isTextBreak last = true →
      Quotes '\'' k (writeSingle folds indent (some last) indent cs ++ ['\''])
        (recalledSingle false cs)) :
    Quotes '\'' k (writeSingle folds indent previous column (b :: bs ++ cs) ++ ['\''])
      (recalledSingle false (b :: bs ++ cs)) := by
  obtain ⟨last, hlast, hwritten⟩ := writeSingle_doubled folds indent column hbs hcs hprevious
  rw [hwritten, recalledSingle_append hcs, List.append_assoc, List.append_assoc]
  refine (hrest last hlast).breaks hpos hbs ?_
  rw [List.append_assoc]
  exact isGap_head_writeSingle k (h.behind_breaks (List.cons_ne_nil _ _) hbs hcs)

/-- What is read of a text between single quotes. -/
theorem quotes_writeSingle (h : SingleText cs)
    (hindent : 0 < indent ∨ folds = false ∧ ∀ ch ∈ cs, isTextBreak ch = false)
    (hprevious : previous.any isTextBreak = true → cs.head?.any isTextBreak = false)
    {k : List Char} (hk : k.head? ≠ some '\'') :
    Quotes '\'' k (writeSingle folds indent previous column cs ++ ['\''])
      (recalledSingle false cs) := by
  induction hn : cs.length using Nat.strongRecOn generalizing cs previous column with
  | ind n ih =>
      cases cs with
      | nil => exact .close rfl fun _ => hk
      | cons d ds =>
          have hlt : ds.length < n := by
            rw [← hn]
            exact Nat.lt_succ_self _
          have hds : 0 < indent ∨ folds = false ∧ ∀ ch ∈ ds, isTextBreak ch = false :=
            hindent.imp_right fun hi => ⟨hi.1, (List.forall_mem_cons.mp hi.2).2⟩
          cases hgap : isGap d with
          | false =>
              have hbreak : isTextBreak d = false := isTextBreak_eq_false_of_isGap hgap
              have hnext : d ≠ '\u0085' := by
                rintro rfl
                cases hgap
              have hrest (column : Nat) := @ih _ hlt column (some d) ds h.tail hds
                (by simp [hbreak]) rfl
              rw [recalledSingle_cons hnext, hbreak]
              by_cases hquote : d = '\''
              · subst hquote
                exact (hrest (column + 2)).twice
              · rw [writeSingle_char hgap hquote]
                exact (hrest (column + 1)).char hgap hquote (Or.inr rfl)
          | true =>
              rcases h.chars d List.mem_cons_self hgap with rfl | hbreak
              · have hrest (column : Nat) := @ih _ hlt column (some ' ') ds h.tail hds
                  (by simp [isTextBreak]) rfl
                rw [recalledSingle_cons (by decide)]
                rcases writeSingle_space folds indent column previous ds with
                  ⟨hfolds, hhead, hwritten⟩ | hwritten
                · have hpos : 0 < indent := hindent.resolve_right fun hnone => by
                    rw [hfolds] at hnone
                    cases hnone.1
                  rw [hwritten, List.append_assoc]
                  refine (hrest indent).fold hpos ?_
                  rw [List.append_assoc]
                  exact isGap_head_writeSingle k (h.behind_space hhead)
                · rw [hwritten]
                  refine (hrest (column + 1)).space ?_
                  rw [List.append_assoc]
                  exact endsOnLine_writeSingle k h
              · obtain ⟨bs, es, rfl, hbs, hes⟩ := exists_front isTextBreak ds
                have hpos : 0 < indent := hindent.resolve_right fun hnone => by
                  rw [hnone.2 d List.mem_cons_self] at hbreak
                  cases hbreak
                have hfirst : previous.any isTextBreak = false := by
                  cases hp : previous.any isTextBreak with
                  | false => rfl
                  | true => simpa [hbreak] using hprevious hp
                have hes' : es.length < n := by
                  rw [List.length_append] at hlt
                  omega
                refine quotes_writeSingle_breaks h (List.forall_mem_cons.mpr ⟨hbreak, hbs⟩) hes
                  hfirst hpos fun last _ => ?_
                exact ih _ hes' h.tail.append (Or.inl hpos) (fun _ => hes) rfl

end Single

end TaggedGrammar.Yaml
