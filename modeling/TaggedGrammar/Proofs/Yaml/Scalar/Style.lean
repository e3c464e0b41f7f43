import TaggedGrammar.Proofs.Yaml.Scalar.Double
import TaggedGrammar.Proofs.Yaml.Scalar.Plain
import TaggedGrammar.Proofs.Yaml.Scalar.Single

/-!
# What the styles give back

The style of a text is chosen by its characters, and each style gives back the texts for which it
is chosen, but for one line end: U+0085 between single quotes is read as another. `recalled` is
the text that is read, and `KeepsText` says that it is the one that was written.

## Main statements

* `PlainRest.plainText`: a text that is written plain is made of words.
* `singleText_of_allowsSingle`: what single quotes can hold.
* `recalledChars_eq_self_iff`, `recalled_eq_self_iff`: which texts are read back.
* `isAllowed_of_mem_writeScalar`, `isBreak_of_mem_writeScalar`: which characters are written.
-/

namespace TaggedGrammar.Yaml

/-! ### Characters that need no escape -/

section Characters

variable {c : Char}

theorem isAllowed_of_needsEscape (h : needsEscape c = false) :
    isAllowed c = true ∧ c ≠ '\t' ∧ c ≠ '\r' ∧ c ≠ byteOrderMark := by
  refine ⟨?_, ?_, ?_, ?_⟩
  · by_cases hn : c = '\n'
    · rw [hn]
      rfl
    · simp only [needsEscape, beq_eq_false_iff_ne.mpr hn, Bool.not_eq_false', Bool.or_eq_true,
        Bool.and_eq_true, decide_eq_true_eq, beq_iff_eq, Bool.false_eq_true, false_or] at h
      simp only [isAllowed, Bool.or_eq_true, Bool.and_eq_true, decide_eq_true_eq, beq_iff_eq]
      omega
  all_goals
    rintro rfl
    cases h

theorem isTextBreak_of_isGap (h : needsEscape c = false) (hgap : isGap c = true) :
    c = ' ' ∨ isTextBreak c = true := by
  obtain ⟨-, htab, hreturn, -⟩ := isAllowed_of_needsEscape h
  simp only [isGap, isWhite, isBreak, Bool.or_eq_true, beq_iff_eq] at hgap
  rcases hgap with (rfl | rfl) | (((rfl | rfl) | rfl) | rfl) | rfl
  · exact Or.inl rfl
  · exact absurd rfl htab
  · exact Or.inr rfl
  · exact absurd rfl hreturn
  all_goals exact Or.inr rfl

end Characters

/-! ### Texts between single quotes -/

theorem singleText_of_allowsSingle {cs : List Char} (h : allowsSingle cs = true) :
    SingleText cs := by
  simp only [allowsSingle, Bool.and_eq_true, Bool.not_eq_true', List.any_eq_false,
    Bool.not_eq_true] at h
  obtain ⟨⟨hescape, hspace⟩, hbreak⟩ := h
  exact ⟨fun ch hm hgap => isTextBreak_of_isGap (hescape ch hm) hgap, hspace, hbreak⟩

/-! ### Plain texts -/

theorem hasInnerIndicator_append {cs ds : List Char} (h : hasInnerIndicator (cs ++ ds) = false) :
    hasInnerIndicator ds = false := by
  induction cs with
  | nil => exact h
  | cons c cs ih =>
      apply ih
      rw [List.cons_append] at h
      cases hcs : cs ++ ds with
      | nil => rfl
      | cons d es =>
          rw [hcs] at h
          exact (Bool.or_eq_false_iff.mp h).2

theorem hasInnerIndicator_pair {cs ds : List Char} {c d : Char}
    (h : hasInnerIndicator (cs ++ c :: d :: ds) = false) :
    ¬(d = ':' ∧ atGap ds = true) ∧ ¬(d = '#' ∧ isGap c = true) := by
  have hpair := hasInnerIndicator_append h
  simp only [hasInnerIndicator, Bool.or_eq_false_iff, Bool.and_eq_false_iff,
    beq_eq_false_iff_ne] at hpair
  constructor
  · rintro ⟨rfl, hgap⟩
    simp [hgap] at hpair
  · rintro ⟨rfl, hgap⟩
    simp [hgap] at hpair

/-- What holds of a text that may be written plain, and of what is left of it behind a gap. -/
structure PlainRest (cs : List Char) : Prop where
  nonempty : cs ≠ []
  chars : ∀ ch ∈ cs, needsEscape ch = false ∧ isTextBreak ch = false
  head : cs.head? ≠ some ' ' ∧ cs.head? ≠ some '#'
  last : cs.getLast? ≠ some ' '
  colon : ∀ ds, cs = ':' :: ds → atGap ds = false
  inner : hasInnerIndicator cs = false

theorem plainRest_of_allowsPlain {cs : List Char} (h : allowsPlain cs = true) (hne : cs ≠ []) :
    PlainRest cs := by
  simp only [allowsPlain, Bool.and_eq_true, Bool.not_eq_true', List.any_eq_false,
    Bool.not_eq_true] at h
  obtain ⟨⟨⟨⟨⟨hbreak, hescape⟩, houter⟩, -⟩, hstart⟩, hinner⟩ := h
  have hedge : ∀ x, (x == ' ' || isTextBreak x) = false → x ≠ ' ' := by
    rintro x hx rfl
    cases hx
  obtain ⟨hfirst, hlast⟩ := Bool.or_eq_false_iff.mp houter
  obtain ⟨c, ds, rfl⟩ := List.exists_cons_of_ne_nil hne
  obtain ⟨hindicator, hmark⟩ := Bool.or_eq_false_iff.mp hstart
  refine ⟨hne, fun ch hm => ⟨hescape ch hm, hbreak ch hm⟩, ⟨?_, ?_⟩, ?_, ?_, hinner⟩
  · rintro ⟨⟩
    cases hfirst
  · rintro ⟨⟩
    cases hindicator
  · intro he
    rw [he] at hlast
    cases hlast
  · rintro es ⟨⟩
    simpa using hmark

theorem PlainRest.isGap_eq {cs : List Char} (h : PlainRest cs) {c : Char} (hm : c ∈ cs) :
    isGap c = (c == ' ') := by
  obtain ⟨hescape, hbreak⟩ := h.chars c hm
  cases hgap : isGap c with
  | true =>
      rcases isTextBreak_of_isGap hescape hgap with rfl | hb
      · rfl
      · rw [hbreak] at hb
        cases hb
  | false => exact (beq_eq_false_iff_ne.mpr (ne_space_of_isGap hgap)).symm

/-- What stands before a gap in a plain text is a word. -/
theorem PlainRest.word {w ds : List Char} (h : PlainRest (w ++ ds)) (hne : w ≠ [])
    (hw : ∀ c ∈ w, c ≠ ' ') (hds : atGap ds = true) : PlainWord w := by
  refine ⟨hne, ?_, ?_, ?_⟩
  · intro c hm
    have hmem : c ∈ w ++ ds := List.mem_append_left ds hm
    exact ⟨by simp [h.isGap_eq hmem, hw c hm], (isAllowed_of_needsEscape (h.chars c hmem).1).2.2.2⟩
  · obtain ⟨c, w', rfl⟩ := List.exists_cons_of_ne_nil hne
    exact h.head.2
  · intro hlast
    obtain ⟨w', rfl⟩ := List.getLast?_eq_some_iff.mp hlast
    rcases List.eq_nil_or_concat w' with rfl | ⟨w'', x, rfl⟩
    · rw [h.colon ds rfl] at hds
      cases hds
    · have hinner := h.inner
      simp only [List.concat_eq_append, List.append_assoc, List.singleton_append] at hinner
      exact (hasInnerIndicator_pair hinner).1 ⟨rfl, hds⟩

theorem spaces_succ_right (n : Nat) : spaces (n + 1) = spaces n ++ [' '] :=
  List.replicate_succ'

/-- What is left of a plain text behind a gap. -/
theorem PlainRest.behind {w cs : List Char} {n : Nat} (h : PlainRest (w ++ (spaces (n + 1) ++ cs)))
    (hcs : cs.head? ≠ some ' ') : PlainRest cs := by
  have hsplit (d : Char) (ds : List Char) :
      w ++ (spaces (n + 1) ++ d :: ds) = (w ++ spaces n) ++ ' ' :: d :: ds := by
    simp [spaces_succ_right]
  have hne : cs ≠ [] := by
    rintro rfl
    apply h.last
    simp [spaces_succ_right]
  have hlast : (w ++ (spaces (n + 1) ++ cs)).getLast? = cs.getLast? := by
    rw [List.getLast?_append, List.getLast?_append, List.getLast?_eq_some_getLast hne]
    rfl
  refine ⟨hne, ?_, ⟨hcs, ?_⟩, hlast ▸ h.last, ?_, ?_⟩
  · intro c hm
    exact h.chars c (List.mem_append_right _ (List.mem_append_right _ hm))
  · intro hsharp
    obtain ⟨ds, rfl⟩ := List.head?_eq_some_iff.mp hsharp
    have hinner := h.inner
    rw [hsplit] at hinner
    exact (hasInnerIndicator_pair hinner).2 ⟨rfl, rfl⟩
  · rintro ds rfl
    have hinner := h.inner
    rw [hsplit] at hinner
    simpa using (hasInnerIndicator_pair hinner).1
  · exact hasInnerIndicator_append (hasInnerIndicator_append h.inner)

/-- A text that may be written plain is made of words with spaces between them. -/
theorem PlainRest.plainText {cs : List Char} (h : PlainRest cs) : PlainText cs := by
  induction hn : cs.length using Nat.strongRecOn generalizing cs with
  | ind n ih =>
      obtain ⟨w, es, rfl, hw, hes⟩ := exists_front (· != ' ') cs
      have hspace : ∀ c ∈ w, c ≠ ' ' := fun c hm => bne_iff_ne.mp (hw c hm)
      have hne : w ≠ [] := by
        rintro rfl
        obtain ⟨e, es', rfl⟩ := List.exists_cons_of_ne_nil h.nonempty
        obtain rfl : e = ' ' := by simpa using hes
        exact h.head.1 rfl
      cases es with
      | nil =>
          have hword := h.word hne hspace rfl
          rw [List.append_nil]
          exact .word hword
      | cons e es =>
          obtain rfl : e = ' ' := by simpa using hes
          obtain ⟨ss, fs, he, hss, hfs⟩ := exists_front (· == ' ') es
          have hspaces : ss = spaces ss.length :=
            List.eq_replicate_of_mem fun c hm => beq_iff_eq.mp (hss c hm)
          have hcs : w ++ ' ' :: es = w ++ (spaces (ss.length + 1) ++ fs) := by
            rw [he, spaces_succ, ← hspaces]
            rfl
          rw [hcs] at h hn ⊢
          have hbehind : PlainRest fs := h.behind (by
            intro hm
            simp [hm] at hfs)
          have hlt : fs.length < n := by
            simp only [← hn, List.length_append, length_spaces]
            omega
          exact .gap _ (h.word hne hspace rfl) (ih _ hlt hbehind rfl)

/-! ### Styles -/

section Styles

variable {isKey : Bool} {cs : List Char}

theorem allowsPlain_of_styleOf (h : styleOf isKey cs = .plain) :
    allowsPlain cs = true ∧ cs ≠ [] := by
  unfold styleOf at h
  split at h
  · rename_i hplain
    obtain ⟨hmeaning, hallows⟩ := Bool.and_eq_true_iff.mp hplain
    refine ⟨hallows, ?_⟩
    rintro rfl
    simp [hasMeaning, absentWords] at hmeaning
  · split at h <;> cases h

theorem allowsSingle_of_styleOf (h : styleOf isKey cs = .single) : allowsSingle cs = true := by
  unfold styleOf at h
  split at h
  · cases h
  · split at h
    · rename_i hsingle
      exact (Bool.and_eq_true_iff.mp hsingle).1
    · cases h

theorem needsEscape_of_styleOf (h : styleOf isKey cs ≠ .double) :
    ∀ ch ∈ cs, needsEscape ch = false := by
  cases hstyle : styleOf isKey cs with
  | plain =>
      obtain ⟨hallows, hne⟩ := allowsPlain_of_styleOf hstyle
      exact fun ch hm => ((plainRest_of_allowsPlain hallows hne).chars ch hm).1
  | single =>
      have hallows := allowsSingle_of_styleOf hstyle
      simp only [allowsSingle, Bool.and_eq_true, Bool.not_eq_true', List.any_eq_false,
        Bool.not_eq_true] at hallows
      exact hallows.1.1
  | double => exact absurd hstyle h

/-- What is read of a text that is written in its style. -/
def recalledChars (isKey : Bool) (cs : List Char) : List Char :=
  if styleOf isKey cs = .single then recalledSingle false cs else cs

@[inherit_doc recalledChars]
def recalled (isKey : Bool) (s : String) : String := String.ofList (recalledChars isKey s.toList)

/-- The style in which a text is written gives it back: between single quotes the line end
U+0085 is read as another. -/
def KeepsText (isKey : Bool) (cs : List Char) : Prop := styleOf isKey cs = .single → '\u0085' ∉ cs

theorem recalledChars_eq_self_iff : recalledChars isKey cs = cs ↔ KeepsText isKey cs := by
  unfold recalledChars KeepsText
  by_cases hstyle : styleOf isKey cs = .single
  · simp [hstyle, recalledSingle_eq_self_iff]
  · simp [hstyle]

theorem recalled_eq_self_iff {s : String} : recalled isKey s = s ↔ KeepsText isKey s.toList := by
  rw [← recalledChars_eq_self_iff, ← String.toList_inj, recalled, String.toList_ofList]

end Styles

/-! ### Characters of written scalars -/

section Written

variable {P : Char → Prop} {folds isFirst afterEscape : Bool} {indent column : Nat}
variable {previous : Option Char} {cs : List Char}

theorem forall_mem_spaces (h : P ' ') (n : Nat) : ∀ ch ∈ spaces n, P ch := by
  intro ch hm
  rwa [mem_spaces hm]

theorem forall_mem_fold (h : P '\n' ∧ P ' ') (n : Nat) : ∀ ch ∈ fold n, P ch :=
  List.forall_mem_cons.mpr ⟨h.1, forall_mem_spaces h.2 n⟩

theorem forall_mem_writePlain (hcs : ∀ ch ∈ cs, P ch) (hfold : folds = true → P '\n' ∧ P ' ') :
    ∀ ch ∈ writePlain folds indent previous column cs, P ch := by
  induction cs generalizing previous column with
  | nil => nofun
  | cons c cs ih =>
      obtain ⟨hc, hcs⟩ := List.forall_mem_cons.mp hcs
      rw [writePlain]
      split
      · rename_i h
        simp only [Bool.and_eq_true] at h
        exact List.forall_mem_append.mpr ⟨forall_mem_fold (hfold h.1.1.1.1) _, ih hcs⟩
      · exact List.forall_mem_cons.mpr ⟨hc, ih hcs⟩

theorem forall_mem_writeSingle (hcs : ∀ ch ∈ cs, P ch) (hquote : P '\'')
    (hfold : (folds = true ∨ ∃ b ∈ cs, isTextBreak b = true) → P '\n' ∧ P ' ') :
    ∀ ch ∈ writeSingle folds indent previous column cs, P ch := by
  induction cs generalizing previous column with
  | nil => nofun
  | cons c cs ih =>
      obtain ⟨hc, hcs⟩ := List.forall_mem_cons.mp hcs
      have hrest (previous : Option Char) (column : Nat) :
          ∀ ch ∈ writeSingle folds indent previous column cs, P ch := by
        refine ih hcs fun h => hfold (h.imp_right ?_)
        rintro ⟨b, hb, hbreak⟩
        exact ⟨b, List.mem_cons_of_mem c hb, hbreak⟩
      by_cases hq : c = '\''
      · subst hq
        exact List.forall_mem_cons.mpr ⟨hquote, List.forall_mem_cons.mpr ⟨hquote, hrest _ _⟩⟩
      · cases hgap : isTextBreak c with
        | true =>
            obtain ⟨hn, hs⟩ := hfold (Or.inr ⟨c, List.mem_cons_self, hgap⟩)
            rw [writeSingle_break hgap]
            refine List.forall_mem_append.mpr ⟨?_, List.forall_mem_cons.mpr ⟨hc, ?_⟩⟩
            · split
              · simpa using hn
              · nofun
            · refine List.forall_mem_append.mpr ⟨?_, hrest _ _⟩
              split
              · nofun
              · exact forall_mem_spaces hs _
        | false =>
            by_cases hspace : c = ' '
            · subst hspace
              rcases writeSingle_space folds indent column previous cs with ⟨hf, -, he⟩ | he
              · rw [he]
                exact List.forall_mem_append.mpr ⟨forall_mem_fold (hfold (Or.inl hf)) _, hrest _ _⟩
              · rw [he]
                exact List.forall_mem_cons.mpr ⟨hc, hrest _ _⟩
            · have he : writeSingle folds indent previous column (c :: cs) =
                  c :: writeSingle folds indent (some c) (column + 1) cs := by
                simp [writeSingle, hq, hgap, hspace]
              rw [he]
              exact List.forall_mem_cons.mpr ⟨hc, hrest _ _⟩

theorem forall_mem_upperHexDigits (hplain : ∀ ch, isPlainInDouble ch = true → P ch)
    (width n : Nat) : ∀ ch ∈ upperHexDigits width n, P ch := by
  induction width generalizing n with
  | zero => nofun
  | succ width ih =>
      have hdigit : ∀ d : Fin 16, isPlainInDouble (upperHexDigit d) = true := by decide
      refine List.forall_mem_append.mpr ⟨ih _, ?_⟩
      simpa using hplain _ (hdigit ⟨n % 16, Nat.mod_lt n (by decide)⟩)

theorem forall_mem_writeEscape (hplain : ∀ ch, isPlainInDouble ch = true → P ch) (hquote : P '"')
    (hescape : P '\\') (c : Char) : ∀ ch ∈ writeEscape c, P ch := by
  have hdigits {x : Char} (hx : isPlainInDouble x = true) (width n : Nat) :
      ∀ ch ∈ '\\' :: x :: upperHexDigits width n, P ch :=
    List.forall_mem_cons.mpr ⟨hescape, List.forall_mem_cons.mpr
      ⟨hplain x hx, forall_mem_upperHexDigits hplain width n⟩⟩
  unfold writeEscape
  cases he : writtenEscapes.lookup c with
  | some e =>
      have hall : ∀ p ∈ writtenEscapes, isPlainInDouble p.2 = true ∨ p.2 = '"' ∨ p.2 = '\\' := by
        decide
      have hmem : (c, e) ∈ writtenEscapes := by
        obtain ⟨l, l', hl, -⟩ := List.lookup_eq_some_iff.mp he
        simp [hl]
      have hletter : P e := by
        rcases hall _ hmem with h | h | h
        · exact hplain e h
        · obtain rfl : e = '"' := h
          exact hquote
        · obtain rfl : e = '\\' := h
          exact hescape
      exact List.forall_mem_cons.mpr ⟨hescape, by simpa using hletter⟩
  | none =>
      dsimp only
      split
      · exact hdigits rfl _ _
      · split
        · exact hdigits rfl _ _
        · exact hdigits rfl _ _

theorem forall_mem_writeDouble (hplain : ∀ ch, isPlainInDouble ch = true → P ch)
    (hquote : P '"') (hescape : P '\\') (hfold : folds = true → P '\n' ∧ P ' ') :
    ∀ ch ∈ writeDouble folds indent isFirst afterEscape column cs, P ch := by
  have hbroken (hf : folds = true) (next : List Char) : ∀ ch ∈ foldDouble indent next, P ch := by
    refine List.forall_mem_append.mpr
      ⟨List.forall_mem_cons.mpr ⟨hescape, forall_mem_fold (hfold hf) _⟩, ?_⟩
    split
    · simpa using hescape
    · nofun
  induction cs generalizing isFirst afterEscape column with
  | nil => nofun
  | cons c cs ih =>
      have hc := forall_mem_writeEscape hplain hquote hescape c
      rcases writeDouble_cases folds isFirst afterEscape indent column c cs with
        ⟨hp, he | ⟨hf, -, next, he⟩⟩ | ⟨-, ⟨next, he⟩ | ⟨hf, he⟩⟩
      · rw [he]
        exact List.forall_mem_cons.mpr ⟨hplain c hp, ih⟩
      · rw [he]
        exact List.forall_mem_append.mpr
          ⟨hbroken hf _, List.forall_mem_cons.mpr ⟨hplain c hp, ih⟩⟩
      · rw [he]
        exact List.forall_mem_append.mpr ⟨hc, ih⟩
      · rw [he]
        exact List.forall_mem_append.mpr ⟨hc, List.forall_mem_append.mpr ⟨hbroken hf _, ih⟩⟩

/-- What holds for the characters of a text that are written as themselves, and for quotes,
escapes and breaks, holds for all characters that write it. -/
theorem forall_mem_writeScalar {style : Style} (hcs : style ≠ .double → ∀ ch ∈ cs, P ch)
    (hplain : ∀ ch, isPlainInDouble ch = true → P ch) (hquote : P '"') (hescape : P '\\')
    (hfold : (folds = true ∨ ∃ b ∈ cs, isTextBreak b = true) → P '\n') :
    ∀ ch ∈ writeScalar style folds indent column cs, P ch := by
  have hspace : P ' ' := hplain ' ' rfl
  have hsingle : P '\'' := hplain '\'' rfl
  cases style with
  | plain => exact forall_mem_writePlain (hcs nofun) fun hf => ⟨hfold (Or.inl hf), hspace⟩
  | single =>
      have hinner : ∀ ch ∈ writeSingle folds indent none (column + 1) cs, P ch :=
        forall_mem_writeSingle (hcs nofun) hsingle fun hf => ⟨hfold hf, hspace⟩
      exact List.forall_mem_cons.mpr
        ⟨hsingle, List.forall_mem_append.mpr ⟨hinner, by simpa using hsingle⟩⟩
  | double =>
      refine List.forall_mem_cons.mpr
        ⟨hquote, List.forall_mem_append.mpr ⟨?_, by simpa using hquote⟩⟩
      exact forall_mem_writeDouble hplain hquote hescape fun hf => ⟨hfold (Or.inl hf), hspace⟩

theorem isAllowed_of_isPlainInDouble {c : Char} (h : isPlainInDouble c = true) :
    isAllowed c = true ∧ c ≠ '\r' := by
  refine ⟨?_, ?_⟩
  · simp only [isPlainInDouble, Bool.and_eq_true, Bool.or_eq_true, decide_eq_true_eq] at h
    simp only [isAllowed, Bool.or_eq_true, Bool.and_eq_true, decide_eq_true_eq, beq_iff_eq]
    omega
  · rintro rfl
    cases h

theorem isBreak_of_isPlainInDouble {c : Char} (h : isPlainInDouble c = true) :
    isBreak c = false := by
  cases hb : isBreak c with
  | false => rfl
  | true =>
      simp only [isBreak, Bool.or_eq_true, beq_iff_eq] at hb
      rcases hb with (((rfl | rfl) | rfl) | rfl) | rfl <;> cases h

/-- A text is written in characters that a document may hold. -/
theorem isAllowed_of_mem_writeScalar (isKey : Bool) :
    ∀ ch ∈ writeScalar (styleOf isKey cs) folds indent column cs,
      isAllowed ch = true ∧ ch ≠ '\r' := by
  refine forall_mem_writeScalar ?_ (fun _ => isAllowed_of_isPlainInDouble) ⟨rfl, by decide⟩
    ⟨rfl, by decide⟩ fun _ => ⟨rfl, by decide⟩
  intro hstyle ch hm
  obtain ⟨hallowed, -, hreturn, -⟩ := isAllowed_of_needsEscape (needsEscape_of_styleOf hstyle ch hm)
  exact ⟨hallowed, hreturn⟩

/-- A text without line ends is written on one line. -/
theorem isBreak_of_mem_writeScalar (isKey : Bool) (h : ∀ ch ∈ cs, isTextBreak ch = false) :
    ∀ ch ∈ writeScalar (styleOf isKey cs) false indent column cs, isBreak ch = false := by
  refine forall_mem_writeScalar ?_ (fun _ => isBreak_of_isPlainInDouble) rfl rfl ?_
  · intro hstyle ch hm
    cases hb : isBreak ch with
    | false => rfl
    | true =>
        rcases isTextBreak_of_isGap (needsEscape_of_styleOf hstyle ch hm) (isGap_of_isBreak hb)
          with rfl | ht
        · cases hb
        · rw [h ch hm] at ht
          cases ht
  · rintro (hf | ⟨b, hb, ht⟩)
    · cases hf
    · rw [h b hb] at ht
      cases ht

end Written

/-! ### Lengths of scalars on one line -/

section Lengths

variable {isFirst afterEscape : Bool} {indent column : Nat} {previous : Option Char}
variable {cs : List Char}

theorem length_writeEscape_le (ch : Char) : (writeEscape ch).length ≤ 10 := by
  unfold writeEscape
  split
  · simp
  · dsimp only
    split
    · simp
    · split <;> simp

theorem length_writePlain_le : (writePlain false indent previous column cs).length ≤ cs.length := by
  induction cs generalizing previous column with
  | nil => exact Nat.le_refl 0
  | cons c cs ih => simpa [writePlain] using ih

theorem length_writeSingle_le (h : ∀ ch ∈ cs, isTextBreak ch = false) :
    (writeSingle false indent previous column cs).length ≤ 2 * cs.length := by
  induction cs generalizing previous column with
  | nil => exact Nat.le_refl 0
  | cons c cs ih =>
      obtain ⟨hc, hcs⟩ := List.forall_mem_cons.mp h
      have hrest (previous : Option Char) (column : Nat) :
          (writeSingle false indent previous column cs).length ≤ 2 * cs.length := ih hcs
      by_cases hquote : c = '\''
      · subst hquote
        simpa [writeSingle, Nat.mul_add] using hrest _ _
      · have hshort := hrest (some c) (column + 1)
        simp [writeSingle, hquote, hc]
        omega

theorem length_writeDouble_le :
    (writeDouble false indent isFirst afterEscape column cs).length ≤ 10 * cs.length := by
  induction cs generalizing isFirst afterEscape column with
  | nil => exact Nat.le_refl 0
  | cons c cs ih =>
      rcases writeDouble_cases false isFirst afterEscape indent column c cs with
        ⟨-, he | ⟨hf, -⟩⟩ | ⟨-, ⟨next, he⟩ | ⟨hf, -⟩⟩
      · rw [he]
        have hrest := @ih false false (column + 1)
        simp only [List.length_cons]
        omega
      · cases hf
      · rw [he]
        have hrest := @ih false true next
        have hescape := length_writeEscape_le c
        simp only [List.length_cons, List.length_append]
        omega
      · cases hf

end Lengths

end TaggedGrammar.Yaml
