import Mathlib.Algebra.Group.Nat.Defs
import TaggedGrammar.Proofs.Yaml.Scalar.Quoted

/-!
# Texts between double quotes

Every text is read back from what `writeDouble` writes. An escape writes one character, and a
break behind a backslash is read as nothing.

## Main statements

* `exists_escape`: a written escape is read as its character.
* `writeDouble_cases`: what is written for one character.
* `quotes_writeDouble`: the text is read back.

## Implementation notes

A line that is broken before a space goes on with a backslash. `lead` is that backslash, so that
the induction is on what stands behind it.
-/

namespace TaggedGrammar.Yaml

/-! ### Escapes -/

theorem hexValue?_upperHexDigit {n : Nat} (h : n < 16) :
    hexValue? (upperHexDigit n) = some n ∧ isBreak (upperHexDigit n) = false := by
  have hall : ∀ d : Fin 16, hexValue? (upperHexDigit d) = some d.val ∧
      isBreak (upperHexDigit d) = false := by decide
  exact hall ⟨n, h⟩

theorem hexFrom_append (cs ds : List Char) (value width : Nat) :
    hexFrom value (cs.length + width) (cs ++ ds) =
      (hexFrom value cs.length cs).bind fun v => hexFrom v width ds := by
  induction cs generalizing value with
  | nil => simp [hexFrom]
  | cons c cs ih =>
      rw [List.length_cons, Nat.add_right_comm, List.cons_append]
      simp only [hexFrom]
      cases hexValue? c with
      | none => rfl
      | some d => exact ih _

@[simp] theorem length_upperHexDigits (width n : Nat) :
    (upperHexDigits width n).length = width := by
  induction width generalizing n with
  | zero => rfl
  | succ width ih => simp [upperHexDigits, ih]

theorem hexFrom_upperHexDigits (value width n : Nat) :
    hexFrom value width (upperHexDigits width n) = some (value * 16 ^ width + n % 16 ^ width) := by
  induction width generalizing n with
  | zero => simp [hexFrom, Nat.mod_one]
  | succ width ih =>
      have hdigit := (hexValue?_upperHexDigit (Nat.mod_lt n (by decide : 0 < 16))).1
      have hsplit := hexFrom_append (upperHexDigits width (n / 16)) [upperHexDigit (n % 16)]
        value 1
      have hmod : n % 16 ^ (width + 1) = 16 * (n / 16 % 16 ^ width) + n % 16 := by
        rw [Nat.pow_succ', Nat.mod_mul]
        omega
      rw [length_upperHexDigits, ih] at hsplit
      rw [upperHexDigits, hsplit]
      simp only [Option.bind_some, hexFrom, hdigit]
      congr 1
      rw [hmod, Nat.pow_succ, ← Nat.mul_assoc]
      omega

theorem isBreak_upperHexDigits {width n : Nat} :
    ∀ ch ∈ upperHexDigits width n, isBreak ch = false := by
  induction width generalizing n with
  | zero => nofun
  | succ width ih =>
      intro ch hm
      rcases List.mem_append.mp hm with hm | hm
      · exact ih ch hm
      · rw [List.mem_singleton.mp hm]
        exact (hexValue?_upperHexDigit (Nat.mod_lt n (by decide))).2

section Escapes

variable {c : Cursor} {e ch : Char} {k : List Char}

theorem escape_letter (hr : c.rest = e :: k) (hb : isBreak e = false)
    (he : escapeLetters.lookup e = some ch) : escape c = .ok ([ch], c.past [e]) := by
  have hnone : c.lineBreak? = none := by
    apply Cursor.lineBreak?_eq_none
    rw [hr]
    rintro x ⟨⟩
    exact hb
  unfold escape
  simp [hnone, hr, he, Cursor.skip_one_eq_past hr hb]

theorem characterOf_toNat (ch : Char) : characterOf ch.toNat = .ok ch := by
  have hvalid : ch.toNat.isValidChar := ch.valid
  rw [characterOf, if_pos hvalid, Char.ofNat_toNat]

theorem escape_digits {width : Nat} (hr : c.rest = e :: (upperHexDigits width ch.toNat ++ k))
    (hb : isBreak e = false) (he : escapeLetters.lookup e = none)
    (hwidth : escapeWidths.lookup e = some width) (hlt : ch.toNat < 16 ^ width) :
    escape c = .ok ([ch], c.past (e :: upperHexDigits width ch.toNat)) := by
  have hnone : c.lineBreak? = none := by
    apply Cursor.lineBreak?_eq_none
    rw [hr]
    rintro x ⟨⟩
    exact hb
  have hvalue : hexFrom 0 width (upperHexDigits width ch.toNat ++ k) = some ch.toNat := by
    have hsplit := hexFrom_append (upperHexDigits width ch.toNat) k 0 0
    rw [length_upperHexDigits, hexFrom_upperHexDigits, Nat.mod_eq_of_lt hlt] at hsplit
    simpa [hexFrom] using hsplit
  have hskip : c.skip (width + 1) = c.past (e :: upperHexDigits width ch.toNat) := by
    have hskip : c.skip (e :: upperHexDigits width ch.toNat).length =
        c.past (e :: upperHexDigits width ch.toNat) :=
      Cursor.skip_eq_past (List.forall_mem_cons.mpr ⟨hb, isBreak_upperHexDigits⟩) hr
    rwa [List.length_cons, length_upperHexDigits] at hskip
  unfold escape
  simp [hnone, hr, he, hwidth, hvalue, characterOf_toNat, hskip, Except.map]

theorem escape_fold {n : Nat} {r : List Char} (hr : c.rest = fold n ++ r) (hn : 0 < n)
    (hhead : ∀ ch ∈ r.head?, isGap ch = false) : escape c = .ok ([], c.past (fold n)) := by
  have hrest : (c.past ['\n']).rest = [] ++ (spaces n ++ r) := Cursor.rest_past_one hr
  unfold escape
  simp only [Cursor.lineBreak?_eq_past hr rfl, quotedBreaks_eq_past hrest (by simp) hn hhead]
  rfl

/-- A written escape is read as the character that it writes. -/
theorem exists_escape (ch : Char) : ∃ w, writeEscape ch = '\\' :: w ∧
    ∀ (c : Cursor) (k : List Char), c.rest = w ++ k → escape c = .ok ([ch], c.past w) := by
  unfold writeEscape
  cases he : writtenEscapes.lookup ch with
  | some e =>
      have hall : ∀ p ∈ writtenEscapes, escapeLetters.lookup p.2 = some p.1 ∧
          isBreak p.2 = false := by decide
      have hmem : (ch, e) ∈ writtenEscapes := by
        obtain ⟨l, l', hl, -⟩ := List.lookup_eq_some_iff.mp he
        simp [hl]
      obtain ⟨hletter, hb⟩ := hall _ hmem
      exact ⟨[e], rfl, fun c k hr => escape_letter hr hb hletter⟩
  | none =>
      dsimp only
      split
      · exact ⟨_, rfl, fun c k hr => escape_digits hr rfl rfl rfl (by omega)⟩
      · split
        · exact ⟨_, rfl, fun c k hr => escape_digits hr rfl rfl rfl (by omega)⟩
        · refine ⟨_, rfl, fun c k hr => escape_digits hr rfl rfl rfl ?_⟩
          have hlt : ch.toNat < 0x110000 := by
            rcases (ch.valid : ch.toNat.isValidChar) with h | ⟨-, h⟩
            · exact Nat.lt_trans h (by decide)
            · exact h
          omega

end Escapes

/-! ### Texts between double quotes -/

section Double

variable {folds isFirst afterEscape : Bool} {indent column : Nat} {cs k w text : List Char}
variable {ch : Char}

theorem Quotes.escape (w' text' : List Char) (h : Quotes '"' k w text)
    (hescape : ∀ c : Cursor, c.rest = w' ++ (w ++ k) →
      Yaml.escape c = .ok (text', c.past w')) :
    Quotes '"' k ('\\' :: w' ++ w) (text' ++ text) := by
  refine h.step _ fun c hr => quotedScalar_escape hr ?_
  exact hescape _ (Cursor.rest_past_one hr)

/-- A break behind a backslash is read as nothing. -/
theorem Quotes.escapedFold (h : Quotes '"' k w text) (hindent : 0 < indent)
    (hhead : ∀ ch ∈ (w ++ k).head?, isGap ch = false) :
    Quotes '"' k ('\\' :: Yaml.fold indent ++ w) text :=
  h.escape _ [] fun _ hr => escape_fold hr hindent hhead

theorem Quotes.escapedSpace (h : Quotes '"' k w text) :
    Quotes '"' k ('\\' :: ' ' :: w) (' ' :: text) :=
  h.escape [' '] [' '] fun _ hr => escape_letter hr rfl rfl

theorem isGap_of_isPlainInDouble (h : isPlainInDouble ch = true) (hspace : ch ≠ ' ') :
    isGap ch = false := by
  cases hgap : isGap ch with
  | false => rfl
  | true =>
      simp only [isGap, isWhite, isBreak, Bool.or_eq_true, beq_iff_eq] at hgap
      rcases hgap with (rfl | rfl) | (((rfl | rfl) | rfl) | rfl) | rfl
      · exact absurd rfl hspace
      all_goals cases h

/-- A character that stands for itself is read as itself, alone or behind a space. -/
theorem Quotes.plain (h : Quotes '"' k w text) (hch : isPlainInDouble ch = true)
    (hend : ch = ' ' → EndsOnLine (w ++ k)) : Quotes '"' k (ch :: w) (ch :: text) := by
  by_cases hspace : ch = ' '
  · subst hspace
    exact h.space (hend rfl)
  · refine h.char (isGap_of_isPlainInDouble hch hspace) ?_ (Or.inl ?_)
    · rintro rfl
      cases hch
    · rintro rfl
      cases hch

/-- What the first character of a text is written as: itself or an escape, and a break before
the one or behind the other where the line is long. -/
theorem writeDouble_cases (folds isFirst afterEscape : Bool) (indent column : Nat) (ch : Char)
    (cs : List Char) :
    (isPlainInDouble ch = true ∧
      ((writeDouble folds indent isFirst afterEscape column (ch :: cs) =
          ch :: writeDouble folds indent false false (column + 1) cs) ∨
        (folds = true ∧ lineWidth < column ∧ ∃ next,
          writeDouble folds indent isFirst afterEscape column (ch :: cs) =
            foldDouble indent (ch :: cs) ++ ch :: writeDouble folds indent false false next cs))) ∨
    (isPlainInDouble ch = false ∧
      ((∃ next, writeDouble folds indent isFirst afterEscape column (ch :: cs) =
          writeEscape ch ++ writeDouble folds indent false true next cs) ∨
        (folds = true ∧ writeDouble folds indent isFirst afterEscape column (ch :: cs) =
          writeEscape ch ++ (foldDouble indent cs ++
            writeDouble folds indent false true (columnAfterFold indent cs) cs)))) := by
  cases hch : isPlainInDouble ch with
  | true =>
      refine Or.inl ⟨rfl, ?_⟩
      simp only [writeDouble, hch, if_true]
      split
      · rename_i h
        simp only [Bool.and_eq_true, decide_eq_true_eq] at h
        exact Or.inr ⟨h.1.1.1.1, h.2, _, rfl⟩
      · exact Or.inl rfl
  | false =>
      refine Or.inr ⟨rfl, ?_⟩
      simp only [writeDouble, hch, Bool.false_eq_true, if_false]
      split
      · rename_i h
        simp only [Bool.and_eq_true, decide_eq_true_eq] at h
        exact Or.inr ⟨h.1.1.1, List.append_assoc _ _ _⟩
      · exact Or.inl ⟨_, rfl⟩

/-- White space in what is written leads to a character on the same line. -/
theorem endsOnLine_writeDouble :
    EndsOnLine (writeDouble folds indent isFirst afterEscape column cs ++ '"' :: k) := by
  induction cs generalizing isFirst afterEscape column with
  | nil => exact endsOnLine_of_isGap (by rintro ch ⟨⟩; rfl)
  | cons ch cs ih =>
      obtain ⟨w, hw, -⟩ := exists_escape ch
      rcases writeDouble_cases folds isFirst afterEscape indent column ch cs with
        ⟨hch, he | ⟨-, -, next, he⟩⟩ | ⟨-, ⟨next, he⟩ | ⟨-, he⟩⟩
      · rw [he]
        by_cases hspace : ch = ' '
        · subst hspace
          exact ih.space
        · refine endsOnLine_of_isGap ?_
          rintro x ⟨⟩
          exact isGap_of_isPlainInDouble hch hspace
      · rw [he]
        exact endsOnLine_of_isGap (by rintro x ⟨⟩; rfl)
      · rw [he, hw]
        exact endsOnLine_of_isGap (by rintro x ⟨⟩; rfl)
      · rw [he, hw]
        exact endsOnLine_of_isGap (by rintro x ⟨⟩; rfl)

/-- Only a space is written as a gap. -/
theorem isGap_head_writeDouble (h : cs.head? ≠ some ' ') :
    ∀ x ∈ (writeDouble folds indent isFirst afterEscape column cs ++ '"' :: k).head?,
      isGap x = false := by
  cases cs with
  | nil =>
      rintro x ⟨⟩
      rfl
  | cons ch cs =>
      obtain ⟨w, hw, -⟩ := exists_escape ch
      rcases writeDouble_cases folds isFirst afterEscape indent column ch cs with
        ⟨hch, he | ⟨-, -, next, he⟩⟩ | ⟨-, ⟨next, he⟩ | ⟨-, he⟩⟩
      · rw [he]
        rintro x ⟨⟩
        exact isGap_of_isPlainInDouble hch fun hspace => h (hspace ▸ rfl)
      · rw [he]
        rintro x ⟨⟩
        rfl
      · rw [he, hw]
        rintro x ⟨⟩
        rfl
      · rw [he, hw]
        rintro x ⟨⟩
        rfl

/-- The backslash before a space with which a line begins. -/
def lead (cs : List Char) : List Char := if cs.head? == some ' ' then ['\\'] else []

/-- What reads back behind the backslash for a leading space reads back behind a break. -/
theorem Quotes.broken (hindent : 0 < indent) (h : Quotes '"' k (lead cs ++ w) cs)
    (hhead : cs.head? ≠ some ' ' → ∀ x ∈ (w ++ k).head?, isGap x = false) :
    Quotes '"' k (foldDouble indent cs ++ w) cs := by
  have hfold : foldDouble indent cs ++ w = '\\' :: Yaml.fold indent ++ (lead cs ++ w) := by
    simp [foldDouble, lead]
  rw [hfold]
  refine h.escapedFold hindent ?_
  by_cases hspace : cs.head? = some ' '
  · have hlead : lead cs = ['\\'] := by
      simp [lead, hspace]
    rw [hlead]
    rintro x ⟨⟩
    rfl
  · have hlead : lead cs = [] := by
      simp [lead, hspace]
    rw [hlead]
    exact hhead hspace

/-- A character that stands for itself is read as itself also where it is a space behind the
backslash. -/
theorem Quotes.leadPlain {before : List Char} (h : Quotes '"' k w cs)
    (hch : isPlainInDouble ch = true) (hend : EndsOnLine (w ++ k))
    (hbefore : before = [] ∨ before = lead (ch :: cs)) :
    Quotes '"' k (before ++ ch :: w) (ch :: cs) := by
  rcases hbefore with rfl | rfl
  · exact h.plain hch fun _ => hend
  · by_cases hspace : ch = ' '
    · subst hspace
      exact h.escapedSpace
    · have hlead : lead (ch :: cs) = [] := by
        simp [lead, hspace]
      rw [hlead]
      exact h.plain hch fun _ => hend

theorem Quotes.writeEscape (h : Quotes '"' k w cs) (ch : Char) :
    Quotes '"' k (Yaml.writeEscape ch ++ w) (ch :: cs) := by
  obtain ⟨e, he, hread⟩ := exists_escape ch
  rw [he]
  exact h.escape _ [ch] fun c hr => hread c _ hr

/-- A text between double quotes is read back, and so is what is left of it in a line that is
not too long, where a backslash may stand before the space that comes first. -/
theorem quotes_writeDouble (hindent : folds = true → 0 < indent ∧ indent < lineWidth)
    {before : List Char} (hbefore : before = [] ∨ before = lead cs ∧ column ≤ lineWidth) :
    Quotes '"' k
      (before ++ (writeDouble folds indent isFirst afterEscape column cs ++ ['"'])) cs := by
  induction cs generalizing before isFirst afterEscape column with
  | nil =>
      have hnil : before = [] := hbefore.elim id fun h => h.1
      subst hnil
      exact .close rfl nofun
  | cons ch cs ih =>
      have hrest (afterEscape : Bool) (column : Nat) :
          Quotes '"' k (writeDouble folds indent false afterEscape column cs ++ ['"']) cs :=
        ih (Or.inl rfl)
      have hend (column : Nat) : EndsOnLine
          (writeDouble folds indent false false column cs ++ ['"'] ++ k) := by
        rw [List.append_assoc]
        exact endsOnLine_writeDouble
      rcases writeDouble_cases folds isFirst afterEscape indent column ch cs with
        ⟨hch, he | ⟨hfolds, hlong, next, he⟩⟩ | ⟨hch, hescape⟩
      · rw [he]
        exact (hrest _ _).leadPlain hch (hend _) (hbefore.imp_right fun h => h.1)
      · have hnil : before = [] := hbefore.elim id fun h => absurd h.2 (Nat.not_le.mpr hlong)
        subst hnil
        rw [he, List.nil_append, List.append_assoc]
        refine Quotes.broken (hindent hfolds).1 ?_ ?_
        · exact (hrest _ _).leadPlain hch (hend _) (Or.inr rfl)
        · rintro hspace x ⟨⟩
          exact isGap_of_isPlainInDouble hch fun heq => hspace (heq ▸ rfl)
      · have hspace : ch ≠ ' ' := by
          rintro rfl
          cases hch
        have hnil : before = [] := hbefore.elim id fun h => by
          simp [h.1, lead, hspace]
        subst hnil
        rcases hescape with ⟨next, he⟩ | ⟨hfolds, he⟩
        · rw [he, List.nil_append, List.append_assoc]
          exact (hrest _ _).writeEscape ch
        · obtain ⟨hpos, hwidth⟩ := hindent hfolds
          have hcolumn : columnAfterFold indent cs ≤ lineWidth := by
            unfold columnAfterFold
            split <;> omega
          rw [he, List.nil_append, List.append_assoc, List.append_assoc]
          refine (Quotes.broken hpos (ih (Or.inr ⟨rfl, hcolumn⟩)) fun hhead => ?_).writeEscape ch
          rw [List.append_assoc]
          exact isGap_head_writeDouble hhead

end Double

end TaggedGrammar.Yaml
