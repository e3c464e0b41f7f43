import TaggedGrammar.Proofs.Yaml.Cursor
import TaggedGrammar.Yaml.Scalar.Plain

/-!
# Plain texts

A text that may be written plain is made of words with spaces between them, and a reader takes
one word and one gap at a time. Where a line is broken at a single space, the gap is read as that
space again.

## Main statements

* `plainLength_append`: the reader takes a word as a whole.
* `plainScalar_writePlain`: the text is read back, with the gap behind it.
-/

namespace TaggedGrammar.Yaml

/-! ### Words -/

/-- The characters of a plain scalar between two gaps. -/
structure PlainWord (w : List Char) : Prop where
  nonempty : w ≠ []
  chars : ∀ ch ∈ w, isGap ch = false ∧ ch ≠ byteOrderMark
  head : w.head? ≠ some '#'
  last : w.getLast? ≠ some ':'

/-- Words with spaces between them. -/
inductive PlainText : List Char → Prop
  | word {w : List Char} (h : PlainWord w) : PlainText w
  | gap {w cs : List Char} (n : Nat) (h : PlainWord w) (rest : PlainText cs) :
      PlainText (w ++ (spaces (n + 1) ++ cs))

/-- Here a word ends: at a gap, or at a colon before one. -/
def EndsWord (k : List Char) : Prop := atGap k = true ∨ ∃ k', k = ':' :: k' ∧ atGap k' = true

theorem plainLength_of_endsWord {k : List Char} (h : EndsWord k) : plainLength false k = 0 := by
  rcases h with h | ⟨k', rfl, h⟩
  · cases k with
    | nil => rfl
    | cons ch k =>
        have hgap : isGap ch = true := h
        simp [plainLength, hgap]
  · simp [plainLength, h]

theorem plainLength_append {w k : List Char} (hw : ∀ ch ∈ w, isGap ch = false)
    (hlast : w.getLast? ≠ some ':') (hk : EndsWord k) :
    plainLength false (w ++ k) = w.length := by
  induction w with
  | nil => exact plainLength_of_endsWord hk
  | cons ch w ih =>
      obtain ⟨hgap, hw⟩ := List.forall_mem_cons.mp hw
      have hcolon : (ch == ':' && atGap (w ++ k)) = false := by
        cases w with
        | nil => simpa using fun he : ch = ':' => absurd (congrArg some he) hlast
        | cons d w => simp [atGap, hw d List.mem_cons_self]
      have hrest : w.getLast? ≠ some ':' := by
        cases w with
        | nil => simp
        | cons d w => rwa [List.getLast?_cons_cons] at hlast
      simp [plainLength, hgap, hcolon, ih hw hrest]

/-! ### Gaps -/

section Gaps

variable {c : Cursor} {n : Nat} {r : List Char}

theorem plainBreaks_spaces (hr : c.rest = spaces n ++ r)
    (hhead : ∀ ch ∈ r.head?, isGap ch = false) :
    plainBreaks c = (some [], c.past (spaces n)) := by
  induction n generalizing c with
  | zero =>
      have hrest : c.rest = r := hr
      have hnone : c.lineBreak? = none := by
        apply Cursor.lineBreak?_eq_none
        rw [hrest]
        exact fun ch hm => isBreak_eq_false_of_isGap (hhead ch hm)
      rw [plainBreaks]
      split
      · rename_i h
        rw [hrest] at h
        exact absurd rfl (ne_space_of_isGap (hhead ' ' (h ▸ rfl)))
      · split
        · rename_i h
          rw [hnone] at h
          cases h
        · rfl
  | succ n ih =>
      have hskip : c.skip 1 = c.past [' '] := Cursor.skip_one_eq_past hr rfl
      have hrest : (c.past [' ']).rest = spaces n ++ r := Cursor.rest_past_one hr
      have hlt : (c.past [' ']).rest.length < c.rest.length := by
        rw [hrest, hr, spaces_succ]
        exact Nat.lt_succ_self _
      rw [plainBreaks]
      split
      · dsimp only
        rw [hskip, dif_pos hlt, ih hrest]
        rfl
      · rename_i h
        exact absurd hr (h _)

theorem plainGap_spaces (hr : c.rest = spaces n ++ r) (hhead : ∀ ch ∈ r.head?, isGap ch = false) :
    plainGap c = ⟨spaces n, c.past (spaces n), false⟩ := by
  have hspace : ∀ ch ∈ r.head?, (ch == ' ') = false := fun ch hm =>
    beq_eq_false_iff_ne.mpr (ne_space_of_isGap (hhead ch hm))
  have hskip : c.skipSpaces = c.past (spaces n) :=
    Cursor.skipSpaces_eq_past hr fun hm => ne_space_of_isGap (hhead ' ' hm) rfl
  have hnone : (c.past (spaces n)).lineBreak? = none := by
    apply Cursor.lineBreak?_eq_none
    rw [Cursor.rest_past hr]
    exact fun ch hm => isBreak_eq_false_of_isGap (hhead ch hm)
  have htake : c.rest.takeWhile (· == ' ') = spaces n := by
    rw [hr]
    exact takeWhile_append_of_head (fun ch hm => by simp [mem_spaces hm]) hspace
  simp only [plainGap, hskip, hnone, htake]

theorem plainGap_fold (hr : c.rest = fold n ++ r) (h : NextLine n r) :
    plainGap c = ⟨[' '], c.past (fold n), true⟩ := by
  have hskip : c.skipSpaces = c :=
    Cursor.skipSpaces_eq_past (n := 0) hr (by simp)
  have hbreak : c.lineBreak? = some ('\n', c.past ['\n']) := Cursor.lineBreak?_eq_past hr rfl
  have hrest : (c.past ['\n']).rest = spaces n ++ r := Cursor.rest_past_one hr
  have hmark : atDocumentMark (c.past ['\n']).rest = false := hrest ▸ h.mark
  have hbreaks := plainBreaks_spaces hrest fun ch hm => (h.head ch hm).1
  simp only [plainGap, hskip, hbreak, hmark, hbreaks]
  rfl

end Gaps

/-! ### Written words -/

section Written

variable {folds : Bool} {indent column : Nat} {previous : Option Char} {cs : List Char}

/-- The characters that are written for spaces between two words. -/
def WrittenGap (folds : Bool) (indent n : Nat) (g : List Char) : Prop :=
  g = spaces (n + 1) ∨ folds = true ∧ n = 0 ∧ g = fold indent

theorem exists_writePlain_word {w : List Char} (hw : ∀ ch ∈ w, ch ≠ ' ') (folds : Bool)
    (indent column : Nat) (previous : Option Char) (cs : List Char) :
    ∃ p next, writePlain folds indent previous column (w ++ cs) =
      w ++ writePlain folds indent p next cs := by
  induction w generalizing previous column with
  | nil => exact ⟨_, _, rfl⟩
  | cons ch w ih =>
      obtain ⟨hch, hw⟩ := List.forall_mem_cons.mp hw
      obtain ⟨p, next, he⟩ := ih hw (column + 1) (some ch)
      exact ⟨p, next, by simp [writePlain, hch, he]⟩

theorem exists_writePlain_spaces (folds : Bool) (indent n column : Nat) (cs : List Char) :
    ∃ next, writePlain folds indent (some ' ') column (spaces n ++ cs) =
      spaces n ++ writePlain folds indent (some ' ') next cs := by
  induction n generalizing column with
  | zero => exact ⟨_, rfl⟩
  | succ n ih =>
      obtain ⟨next, he⟩ := ih (column + 1)
      exact ⟨next, by simp [spaces_succ, writePlain, he]⟩

theorem exists_writePlain_gap (folds : Bool) (indent n column : Nat) (previous : Option Char)
    (cs : List Char) :
    ∃ g next, WrittenGap folds indent n g ∧
      writePlain folds indent previous column (spaces (n + 1) ++ cs) =
        g ++ writePlain folds indent (some ' ') next cs := by
  simp only [spaces_succ, List.cons_append, writePlain]
  split
  · rename_i h
    simp only [Bool.and_eq_true, bne_iff_ne] at h
    obtain ⟨⟨⟨⟨hfolds, -⟩, -⟩, hhead⟩, -⟩ := h
    cases n with
    | zero => exact ⟨fold indent, indent, Or.inr ⟨hfolds, rfl, rfl⟩, rfl⟩
    | succ n => exact absurd rfl hhead
  · obtain ⟨next, he⟩ := exists_writePlain_spaces folds indent n (column + 1) cs
    exact ⟨spaces (n + 1), next, Or.inl rfl, by rw [he]; rfl⟩

end Written

/-! ### Reading -/

section Reading

variable {c : Cursor} {w cs k : List Char} {least : Int}

/-- Reading a word and going on behind it. -/
theorem plainScalar_step (hw : PlainWord w) (hr : c.rest = w ++ k) (hk : EndsWord k)
    (brokeLine : Bool) {gap : PlainGap} (hgap : plainGap (c.past w) = gap) :
    plainScalar false least brokeLine c =
      if gap.text.isEmpty || atComment gap.cursor.rest || decide (gap.cursor.column < least) then
        ⟨w, gap.cursor, gap.brokeLine⟩
      else if gap.cursor.rest.length < c.rest.length then
        let more := plainScalar false least gap.brokeLine gap.cursor
        if more.text.isEmpty then { more with text := w }
        else { more with text := w ++ gap.text ++ more.text }
      else ⟨w, gap.cursor, gap.brokeLine⟩ := by
  have hlength : plainLength false c.rest = w.length := by
    rw [hr]
    exact plainLength_append (fun ch hm => (hw.chars ch hm).1) hw.last hk
  have hcomment : atComment c.rest = false := by
    obtain ⟨ch, w', rfl⟩ := List.exists_cons_of_ne_nil hw.nonempty
    simpa [atComment, hr] using hw.head
  have hpos : (w.length == 0) = false := by
    simpa using hw.nonempty
  have hskip : c.skip w.length = c.past w :=
    Cursor.skip_eq_past (fun ch hm => isBreak_eq_false_of_isGap (hw.chars ch hm).1) hr
  have htake : c.rest.take w.length = w := by
    rw [hr, List.take_left]
  rw [plainScalar]
  simp only [hlength, hcomment, hpos, hskip, htake, hgap, Bool.or_self, Bool.false_eq_true,
    if_false, Bool.not_false, Bool.true_and, dite_eq_ite]

/-- The scalar that ends behind a word. -/
theorem plainScalar_word (hw : PlainWord w) (hr : c.rest = w ++ k) (hk : EndsWord k)
    (hend : (plainGap (c.past w)).text = [] ∨ (plainGap (c.past w)).cursor.column < least)
    (brokeLine : Bool) :
    plainScalar false least brokeLine c =
      ⟨w, (plainGap (c.past w)).cursor, (plainGap (c.past w)).brokeLine⟩ := by
  rw [plainScalar_step hw hr hk brokeLine rfl, if_pos]
  rcases hend with h | h <;> simp [h]

/-- A word with a gap behind it and more words. -/
theorem plainScalar_gap {g : List Char} {n : Nat} {broke : Bool} (hw : PlainWord w)
    (hr : c.rest = w ++ (g ++ k)) (hg : EndsWord (g ++ k))
    (hgap : plainGap (c.past w) = ⟨spaces (n + 1), (c.past w).past g, broke⟩)
    (hhead : k.head? ≠ some '#') (hcolumn : least ≤ ((c.past w).past g).column)
    (hcs : cs ≠ []) {d : Cursor} {ends : Bool}
    (hmore : plainScalar false least broke ((c.past w).past g) = ⟨cs, d, ends⟩)
    (brokeLine : Bool) :
    plainScalar false least brokeLine c = ⟨w ++ (spaces (n + 1) ++ cs), d, ends⟩ := by
  have hrest : ((c.past w).past g).rest = k := Cursor.rest_past (Cursor.rest_past hr)
  have hcomment : atComment k = false := by
    simpa [atComment] using hhead
  have hlt : k.length < c.rest.length := by
    have hpos := List.length_pos_iff.mpr hw.nonempty
    simp only [hr, List.length_append]
    omega
  have hstop : (decide (((c.past w).past g).column < least)) = false := by
    simpa using hcolumn
  rw [plainScalar_step hw hr hg brokeLine hgap]
  simp only [hrest, hcomment, hstop, hmore, hlt, spaces_succ, List.isEmpty_cons, Bool.or_self,
    Bool.false_eq_true, if_false, if_true]
  rw [if_neg (by simpa using hcs), List.append_assoc]

/-- Behind the last word a line ends that is not followed by one of the scalar, or a colon
stands. -/
def EndsPlain (least : Int) (k : List Char) : Prop :=
  EndsWord k ∧ ∀ d : Cursor, d.rest = k →
    (plainGap d).text = [] ∨ (plainGap d).cursor.column < least

theorem endsPlain_colon {k' : List Char} (h : atGap k' = true) : EndsPlain least (':' :: k') := by
  refine ⟨Or.inr ⟨k', rfl, h⟩, fun d hd => Or.inl ?_⟩
  rw [plainGap_spaces (n := 0) hd (by rintro ch ⟨⟩; rfl)]
  rfl

theorem endsPlain_fold {m : Nat} {k' : List Char} (h : NextLine m k') (hm : m < least) :
    EndsPlain least (fold m ++ k') := by
  refine ⟨Or.inl rfl, fun d hd => Or.inr ?_⟩
  rw [plainGap_fold hd h, Cursor.column_past_fold hd]
  exact hm

theorem PlainWord.head_append (h : PlainWord w) (k : List Char) :
    ∀ ch ∈ (w ++ k).head?, isGap ch = false ∧ ch ≠ '#' ∧ ch ≠ byteOrderMark := by
  obtain ⟨ch, w', rfl⟩ := List.exists_cons_of_ne_nil h.nonempty
  rintro x ⟨⟩
  obtain ⟨hgap, hmark⟩ := h.chars ch List.mem_cons_self
  exact ⟨hgap, fun he => h.head (congrArg some he), hmark⟩

theorem PlainText.ne_nil (h : PlainText cs) : cs ≠ [] := by
  cases h with
  | word hw => exact hw.nonempty
  | gap n hw rest => exact List.append_ne_nil_of_left_ne_nil hw.nonempty _

theorem head_writePlain (h : PlainText cs) (folds : Bool) (indent column : Nat)
    (previous : Option Char) (k : List Char) :
    ∀ ch ∈ (writePlain folds indent previous column cs ++ k).head?,
      isGap ch = false ∧ ch ≠ '#' ∧ ch ≠ byteOrderMark := by
  have hword {w : List Char} (hw : PlainWord w) (ds : List Char) :
      ∀ ch ∈ (writePlain folds indent previous column (w ++ ds) ++ k).head?,
        isGap ch = false ∧ ch ≠ '#' ∧ ch ≠ byteOrderMark := by
    have hspace : ∀ ch ∈ w, ch ≠ ' ' := fun ch hm => ne_space_of_isGap (hw.chars ch hm).1
    obtain ⟨p, next, he⟩ := exists_writePlain_word hspace folds indent column previous ds
    rw [he, List.append_assoc]
    exact hw.head_append _
  cases h with
  | word hw => simpa using hword hw []
  | gap n hw rest => exact hword hw _

/-- Behind a word a written gap is read as the spaces that it is written for. -/
theorem plainGap_written {folds : Bool} {indent n : Nat} {g : List Char}
    (hg : WrittenGap folds indent n g) (hindent : folds = true → 0 < indent)
    (hr : c.rest = g ++ k)
    (hk : ∀ ch ∈ k.head?, isGap ch = false ∧ ch ≠ '#' ∧ ch ≠ byteOrderMark) :
    ∃ broke, plainGap c = ⟨spaces (n + 1), c.past g, broke⟩ := by
  rcases hg with rfl | ⟨hfolds, rfl, rfl⟩
  · exact ⟨false, plainGap_spaces hr fun ch hm => (hk ch hm).1⟩
  · exact ⟨true, plainGap_fold hr ⟨hk, atDocumentMark_spaces k (hindent hfolds)⟩⟩

theorem column_past_written {folds : Bool} {indent n : Nat} {g : List Char}
    (hg : WrittenGap folds indent n g) (hindent : folds = true → least ≤ indent)
    (hr : c.rest = g ++ k) (hcolumn : least ≤ c.column) : least ≤ (c.past g).column := by
  rcases hg with rfl | ⟨hfolds, -, rfl⟩
  · have hle : c.column ≤ (c.past (spaces (n + 1))).column :=
      Cursor.column_le_past fun ch hm => mem_spaces hm ▸ rfl
    omega
  · rw [Cursor.column_past_fold hr]
    exact hindent hfolds

/-- A plain text is read back. -/
theorem plainScalar_writePlain (h : PlainText cs) {folds : Bool} {indent column : Nat}
    {previous : Option Char} (hindent : folds = true → least ≤ indent ∧ 0 < indent)
    (hr : c.rest = writePlain folds indent previous column cs ++ k)
    (hcolumn : least ≤ c.column + 1) (hk : EndsPlain least k) (brokeLine : Bool) :
    let d := c.past (writePlain folds indent previous column cs)
    plainScalar false least brokeLine c = ⟨cs, (plainGap d).cursor, (plainGap d).brokeLine⟩ := by
  induction h generalizing c previous column brokeLine with
  | @word w hw =>
      have hspace : ∀ ch ∈ w, ch ≠ ' ' := fun ch hm => ne_space_of_isGap (hw.chars ch hm).1
      obtain ⟨p, next, he⟩ := exists_writePlain_word hspace folds indent column previous []
      have hwritten : writePlain folds indent previous column w = w := by
        simpa [writePlain] using he
      rw [hwritten] at hr ⊢
      exact plainScalar_word hw hr hk.1 (hk.2 _ (Cursor.rest_past hr)) brokeLine
  | @gap w cs n hw rest ih =>
      have hspace : ∀ ch ∈ w, ch ≠ ' ' := fun ch hm => ne_space_of_isGap (hw.chars ch hm).1
      obtain ⟨p, column', hword⟩ := exists_writePlain_word hspace folds indent column previous
        (spaces (n + 1) ++ cs)
      obtain ⟨g, column'', hg, hspaces⟩ := exists_writePlain_gap folds indent n column' p cs
      rw [hword, hspaces] at hr ⊢
      rw [List.append_assoc, List.append_assoc] at hr
      have hrest := Cursor.rest_past hr
      have hhead := head_writePlain rest folds indent column'' (some ' ') k
      obtain ⟨broke, hgap⟩ := plainGap_written hg (fun hf => (hindent hf).2) hrest hhead
      have hmark : byteOrderMark ∉ w := fun hm => (hw.chars _ hm).2 rfl
      have hcolumn' : least ≤ ((c.past w).past g).column := by
        refine column_past_written hg (fun hf => (hindent hf).1) hrest ?_
        have hlength := List.length_pos_iff.mpr hw.nonempty
        rw [Cursor.column_past (fun ch hm => isBreak_eq_false_of_isGap (hw.chars ch hm).1) hr hmark]
        omega
      have hends : EndsWord (g ++ (writePlain folds indent (some ' ') column'' cs ++ k)) := by
        rcases hg with rfl | ⟨-, -, rfl⟩ <;> exact Or.inl rfl
      have hmore := ih (Cursor.rest_past hrest) (by omega) broke
      have hfirst : (writePlain folds indent (some ' ') column'' cs ++ k).head? ≠ some '#' :=
        fun hm => (hhead '#' hm).2.1 rfl
      rw [plainScalar_gap hw hr hends hgap hfirst hcolumn' rest.ne_nil hmore brokeLine,
        Cursor.past_append, Cursor.past_append]

end Reading

end TaggedGrammar.Yaml
