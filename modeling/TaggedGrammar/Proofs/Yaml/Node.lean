import TaggedGrammar.Proofs.Yaml.Lexing
import TaggedGrammar.Yaml.Written

/-!
# Scalars as tokens

A written scalar is one token, whatever its style. It may begin a key until the line ends, so the
place where it begins is remembered and given up at the next line.

## Main statements

* `exists_readToken_scalar`: a written scalar is read as one token.
* `leads_text`: a text behind an indicator or a colon, up to the next line.
-/

namespace TaggedGrammar.Yaml

namespace Lexing

/-! ### Where a node begins -/

section Start

variable {c : Cursor} {ts : List Token} {indent : Int} {outer : List Int} {allowed : Bool}

/-- The place of a node as that of a key that may begin there. -/
def possibleKey (c : Cursor) (ts : List Token) (indent : Int) (allowed : Bool) :
    Option KeyStart :=
  if allowed then some ⟨ts.length, indent == c.column, c.index, c.line, c.column⟩ else none

theorem saveKey_block : (block c ts indent outer none allowed).saveKey =
    some (block c ts indent outer (possibleKey c ts indent allowed) allowed) := by
  cases allowed with
  | false => rfl
  | true => simp [saveKey, block, dropKey, possibleKey, inFlow]

theorem isStale_possibleKey {line : Nat} (hindent : indent < c.column) (hline : c.line < line) :
    IsStale (possibleKey c ts indent allowed) line := by
  intro place hm
  cases allowed with
  | false => cases hm
  | true =>
      obtain rfl := Option.some.inj hm
      exact ⟨beq_eq_false_iff_ne.mpr (Int.ne_of_lt hindent), hline⟩

end Start

/-! ### Scalars -/

/-- A character that does not announce anything else begins a plain scalar. -/
theorem readToken_plain {s : Lexing} {ch : Char} {next : List Char} (hflow : s.inFlow = false)
    (hcolumn : s.cursor.column ≠ 0) (hgap : isGap ch = false)
    (hmeans : "#,[]\x7b\x7d&*!|>'\"%@\x60".toList.contains ch = false)
    (hnext : ch = '?' ∨ ch = ':' ∨ ch = '-' → atGap next = false) :
    s.readToken ch next = orMalformed s.readPlain := by
  have hchars : "#,[]\x7b\x7d&*!|>'\"%@\x60".toList = ['#', ',', '[', ']', '\x7b', '\x7d', '&',
    '*', '!', '|', '>', '\'', '"', '%', '@', '\x60'] := rfl
  have hstart : (s.cursor.column == 0) = false := beq_eq_false_iff_ne.mpr hcolumn
  rw [hchars] at hmeans
  simp only [List.contains_cons, List.contains_nil, Bool.or_eq_false_iff, beq_eq_false_iff_ne,
    and_true] at hmeans
  by_cases hsign : ch = '?' ∨ ch = ':' ∨ ch = '-'
  · have hatGap : atGap next = false := hnext hsign
    rcases hsign with rfl | rfl | rfl <;>
      simp [readToken, readUnquoted, startsPlain, indicators, hstart, hflow, hgap, hatGap]
  · simp only [not_or] at hsign
    simp [readToken, readUnquoted, startsPlain, indicators, hstart, hflow, hgap, hmeans, hsign]

theorem readToken_quoted {s : Lexing} {q : Char} (hq : q = '\'' ∨ q = '"') (next : List Char) :
    s.readToken q next = s.readQuoted q := by
  rcases hq with rfl | rfl <;> rfl

section Scalar

variable {c : Cursor} {ts : List Token} {indent : Int} {outer : List Int} {allowed : Bool}
variable {cs k : List Char}

theorem readPlain_block {found : PlainScalar} (h : plainScalar false (indent + 1) false c = found) :
    (block c ts indent outer none allowed).readPlain =
      some (block found.cursor (ts ++ [.scalar (String.ofList found.text)]) indent outer
        (possibleKey c ts indent allowed) found.brokeLine) := by
  simp only [readPlain, saveKey_block, Option.bind_eq_bind, Option.bind_some, Option.pure_def,
    inFlow_block, indent_block, cursor_block, h, emit_block, moveTo_block, allowKey_block]

theorem writePlain_cons {ch : Char} (h : ch ≠ ' ') (folds : Bool) (written column : Nat)
    (previous : Option Char) (ds : List Char) :
    writePlain folds written previous column (ch :: ds) =
      ch :: writePlain folds written (some ch) (column + 1) ds := by
  simp [writePlain, h]

/-- The first character of a plain text, and that it announces nothing else. -/
theorem exists_cons_of_allowsPlain (h : allowsPlain cs = true) (hne : cs ≠ []) (folds : Bool)
    (written column : Nat) (k : List Char) :
    ∃ ch next, writePlain folds written none column cs ++ k = ch :: next ∧ isGap ch = false ∧
      "#,[]\x7b\x7d&*!|>'\"%@\x60".toList.contains ch = false ∧
      (ch = '?' ∨ ch = ':' ∨ ch = '-' → atGap next = false) := by
  have hrest := plainRest_of_allowsPlain h hne
  obtain ⟨ch, ds, rfl⟩ := List.exists_cons_of_ne_nil hne
  have hspace : ch ≠ ' ' := fun he => hrest.head.1 (congrArg some he)
  have hstart : startsWithIndicator (ch :: ds) = false := by
    simp only [allowsPlain, Bool.and_eq_true, Bool.not_eq_true'] at h
    exact h.1.2
  obtain ⟨hindicator, hsign⟩ := Bool.or_eq_false_iff.mp hstart
  refine ⟨ch, _, by rw [writePlain_cons hspace, List.cons_append], ?_, hindicator, ?_⟩
  · rw [hrest.isGap_eq List.mem_cons_self]
    exact beq_eq_false_iff_ne.mpr hspace
  · intro hch
    have hgap : atGap ds = false := by
      rcases hch with rfl | rfl | rfl <;> simpa using hsign
    cases ds with
    | nil => cases hgap
    | cons d es =>
        have hd : isGap d = false := hgap
        rw [writePlain_cons (ne_space_of_isGap hd)]
        exact hd

theorem readQuoted_block {q : Char} {w : List Char} (hr : c.rest = q :: (w ++ k))
    (hbreak : isBreak q = false) (h : Quotes q k w cs) :
    (block c ts indent outer none allowed).readQuoted q =
      .ok (block (c.past (q :: w)) (ts ++ [.scalar (String.ofList cs)]) indent outer
        (possibleKey c ts indent allowed) false) := by
  have hskip : c.skip 1 = c.past [q] := Cursor.skip_one_eq_past hr hbreak
  simp only [readQuoted, saveKey_block, orMalformed, cursor_block, hskip, bind, Except.bind,
    h _ (Cursor.rest_past_one hr), emit_block, moveTo_block, allowKey_block]
  rfl

/-- A written scalar is one token, of the text that its style gives back. The cursor stands behind
it, or behind the gap that ends a plain scalar. -/
theorem exists_readToken_scalar (ts : List Token) (outer : List Int) (allowed : Bool)
    {isKey folds : Bool} {written column : Nat}
    (hr : c.rest = writeScalar (styleOf isKey cs) folds written column cs ++ k)
    (hfolds : folds = true → indent < written ∧ 0 < written ∧ written < lineWidth)
    (hbreaks : folds = false → ∀ ch ∈ cs, isTextBreak ch = false)
    (hcolumn : indent ≤ c.column) (hpos : c.column ≠ 0)
    (hquote : k.head? ≠ some '\'') (hends : EndsPlain (indent + 1) k) :
    ∃ ch next d broke, c.rest = ch :: next ∧
      (block c ts indent outer none allowed).readToken ch next =
        .ok (block d (ts ++ [.scalar (String.ofList (recalledChars isKey cs))]) indent outer
          (possibleKey c ts indent allowed) broke) ∧
      let e := c.past (writeScalar (styleOf isKey cs) folds written column cs)
      (d = e ∧ broke = false ∨ d = (plainGap e).cursor ∧ broke = (plainGap e).brokeLine) := by
  cases hstyle : styleOf isKey cs with
  | plain =>
      obtain ⟨hallows, hne⟩ := allowsPlain_of_styleOf hstyle
      have hrecall : recalledChars isKey cs = cs := if_neg (by simp [hstyle])
      rw [hstyle] at hr
      rw [hrecall]
      obtain ⟨ch, next, hcons, hgap, hmeans, hnext⟩ :=
        exists_cons_of_allowsPlain hallows hne folds written column k
      have hread := plainScalar_writePlain (plainRest_of_allowsPlain hallows hne).plainText
        (fun hf => ⟨(hfolds hf).1, (hfolds hf).2.1⟩) hr (by omega) hends false
      refine ⟨ch, next, _, _, hr.trans hcons, ?_, Or.inr ⟨rfl, rfl⟩⟩
      rw [readToken_plain rfl hpos hgap hmeans hnext, readPlain_block hread]
      rfl
  | single =>
      have hsingle := singleText_of_allowsSingle (allowsSingle_of_styleOf hstyle)
      have hrecall : recalledChars isKey cs = recalledSingle false cs := if_pos hstyle
      have hwritten : 0 < written ∨ folds = false ∧ ∀ ch ∈ cs, isTextBreak ch = false := by
        cases hf : folds with
        | false => exact Or.inr ⟨rfl, hbreaks hf⟩
        | true => exact Or.inl (hfolds hf).2.1
      rw [hstyle] at hr
      rw [hrecall]
      refine ⟨_, _, _, _, hr, ?_, Or.inl ⟨rfl, rfl⟩⟩
      rw [readToken_quoted (Or.inl rfl)]
      exact readQuoted_block hr rfl (quotes_writeSingle hsingle hwritten (by simp) hquote)
  | double =>
      have hrecall : recalledChars isKey cs = cs := if_neg (by simp [hstyle])
      rw [hstyle] at hr
      rw [hrecall]
      refine ⟨_, _, _, _, hr, ?_, Or.inl ⟨rfl, rfl⟩⟩
      rw [readToken_quoted (Or.inr rfl)]
      exact readQuoted_block hr rfl
        (quotes_writeDouble (fun hf => (hfolds hf).2) (Or.inl (Eq.refl [])))

theorem writeScalar_styleOf_ne_nil (isKey folds : Bool) (written column : Nat) (cs : List Char) :
    writeScalar (styleOf isKey cs) folds written column cs ≠ [] := by
  cases hstyle : styleOf isKey cs with
  | plain =>
      obtain ⟨hallows, hne⟩ := allowsPlain_of_styleOf hstyle
      obtain ⟨ch, next, hcons, -⟩ := exists_cons_of_allowsPlain hallows hne folds written column []
      rw [List.append_nil] at hcons
      rw [writeScalar, hcons]
      exact List.cons_ne_nil _ _
  | single => exact List.cons_ne_nil _ _
  | double => exact List.cons_ne_nil _ _

theorem atToken_writeScalar (isKey folds : Bool) (written column : Nat) (cs k : List Char) :
    AtToken (writeScalar (styleOf isKey cs) folds written column cs ++ k) := by
  cases hstyle : styleOf isKey cs with
  | plain =>
      obtain ⟨hallows, hne⟩ := allowsPlain_of_styleOf hstyle
      exact head_writePlain (plainRest_of_allowsPlain hallows hne).plainText folds written column
        none k
  | single => simp [AtToken, writeScalar, isGap, isWhite, isBreak, byteOrderMark]
  | double => simp [AtToken, writeScalar, isGap, isWhite, isBreak, byteOrderMark]

/-- A written text is one token, and the next begins on a new line. -/
theorem steps_text {s : String} {written column m : Nat}
    (hr : c.rest = writeText written column s ++ (fold m ++ k)) (hk : NextLine m k)
    (hwritten : indent < written ∧ 0 < written) (hwidth : written < lineWidth)
    (hcolumn : indent < c.column) (hm : m ≤ indent) :
    Relation.ReflTransGen Step (block c ts indent outer none allowed)
      ((block (c.past (writeText written column s ++ fold m)) (ts ++ [.scalar (recalled false s)])
        indent outer none true).unwind m) := by
  have hends : EndsPlain (indent + 1) (fold m ++ k) := endsPlain_fold hk (by omega)
  have hquote : (fold m ++ k).head? ≠ some '\'' := fun h => absurd (Option.some.inj h) (by decide)
  obtain ⟨ch, next, d, broke, hcons, hread, hd⟩ := exists_readToken_scalar ts outer allowed hr
    (fun _ => ⟨hwritten.1, hwritten.2, hwidth⟩) (by simp) (Int.le_of_lt hcolumn) (by omega) hquote
    hends
  have hne : writeText written column s ≠ [] :=
    writeScalar_styleOf_ne_nil false true written column s.toList
  have hrest : (c.past (writeText written column s)).rest = fold m ++ k := Cursor.rest_past hr
  have hline : c.line ≤ (c.past (writeText written column s)).line := Cursor.line_le_past c _
  have hstale : IsStale (possibleKey c ts indent allowed)
      ((c.past (writeText written column s)).line + 1) :=
    isStale_possibleKey hcolumn (Nat.lt_succ_of_le hline)
  rw [Cursor.past_append]
  rcases hd with ⟨rfl, rfl⟩ | ⟨hcursor, hbroke⟩
  · exact Leads.behind ⟨_, advance_fold hrest hk.head hstale, .refl⟩ hcons hread rfl hne
  · -- The gap behind a plain text reaches to the next token.
    have hgap : plainGap (c.past (writeText written column s)) =
        ⟨[' '], (c.past (writeText written column s)).past (fold m), true⟩ := plainGap_fold hrest hk
    obtain rfl : d = (c.past (writeText written column s)).past (fold m) :=
      hcursor.trans (congrArg PlainGap.cursor hgap)
    obtain rfl : broke = true := hbroke.trans (congrArg PlainGap.brokeLine hgap)
    have hhere : AtToken ((c.past (writeText written column s)).past (fold m)).rest := by
      rw [Cursor.rest_past hrest]
      exact hk.head
    rw [← Cursor.line_past_fold] at hstale
    have hadvance : (block ((c.past (writeText written column s)).past (fold m))
        (ts ++ [.scalar (recalled false s)]) indent outer (possibleKey c ts indent allowed)
        true).advance = some ((block ((c.past (writeText written column s)).past (fold m))
          (ts ++ [.scalar (recalled false s)]) indent outer none true).unwind m) := by
      rw [advance_here hhere hstale, Cursor.column_past_fold hrest]
    exact Leads.behind ⟨_, hadvance, .refl⟩ hcons hread (Cursor.past_append c _ _).symm
      (by simp [hne])

/-- Behind an indicator or a colon a written text is one token, and the next begins on a new
line. -/
theorem leads_text {s : String} {written column m : Nat}
    (hr : c.rest = ' ' :: (writeText written column s ++ (fold m ++ k))) (hk : NextLine m k)
    (hwritten : indent < written ∧ 0 < written) (hwidth : written < lineWidth)
    (hcolumn : indent ≤ c.column) (hm : m ≤ indent) :
    (block c ts indent outer none allowed).Leads
      ((block (c.past (' ' :: (writeText written column s ++ fold m)))
        (ts ++ [.scalar (recalled false s)]) indent outer none true).unwind m) := by
  have hnext : (c.past [' ']).column = c.column + 1 := Cursor.column_past_one hr rfl (by decide)
  have hstart : (block c ts indent outer none allowed).advance =
      some (block (c.past [' ']) ts indent outer none allowed) :=
    advance_spaces (n := 1) hr (atToken_writeScalar _ _ _ _ _ _) rfl hcolumn
  exact ⟨_, hstart, steps_text (Cursor.rest_past_one hr) hk hwritten hwidth (by omega) hm⟩

end Scalar

end Lexing

end TaggedGrammar.Yaml
