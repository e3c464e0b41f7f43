import TaggedGrammar.Proofs.Yaml.Cursor
import TaggedGrammar.Yaml.Scalar.Quoted

/-!
# Scalars between quotes

What the reader between quotes does at each thing that can stand there: a character, a quote
written twice, a space, a line end, a run of them, an escape, the closing quote. `Quotes` says
that characters up to the closing quote are read as a text; it is built from the back, one such
thing at a time, so that a proof about a writer follows its recursion.

## Main statements

* `quotedGap_fold`, `quotedGap_doubled`: what is read of one line end, and of line ends in a row.
* `Quotes.step` and the statements behind it: one more thing in front of a text that is read.

## Implementation notes

What a space means is known at the end of its line only: `EndsOnLine` says that something stands
behind the spaces there.
-/

namespace TaggedGrammar.Yaml

/-! ### Line ends that are read as others -/

/-- What is read of a text between single quotes. U+0085 is a line feed, but nothing is written
twice for it: on its own it is folded into a space, and in front of other line ends it is lost. -/
def recalledSingle (afterBreak : Bool) : List Char → List Char
  | [] => []
  | ch :: cs =>
    (if ch != '\u0085' then [ch]
    else if afterBreak then ['\n']
    else if cs.head?.any isTextBreak then []
    else [' ']) ++ recalledSingle (isTextBreak ch) cs

section Recall

variable {afterBreak : Bool} {ch : Char} {bs cs : List Char}

theorem recalledSingle_cons (h : ch ≠ '\u0085') :
    recalledSingle afterBreak (ch :: cs) = ch :: recalledSingle (isTextBreak ch) cs := by
  simp [recalledSingle, h]

theorem recalledSingle_breaks (h : ∀ b ∈ bs, isTextBreak b = true) :
    recalledSingle true bs = bs.map readBreak := by
  induction bs with
  | nil => rfl
  | cons b bs ih =>
      obtain ⟨hb, hbs⟩ := List.forall_mem_cons.mp h
      rw [recalledSingle, hb, ih hbs]
      by_cases hnext : b = '\u0085'
      · simp [readBreak, hnext]
      · simp [readBreak, hnext]

theorem recalledSingle_of_head (h : cs.head?.any isTextBreak = false) :
    recalledSingle afterBreak cs = recalledSingle false cs := by
  cases cs with
  | nil => rfl
  | cons ch cs =>
      have hne : ch ≠ '\u0085' := by
        rintro rfl
        cases h
      rw [recalledSingle_cons hne, recalledSingle_cons hne]

theorem recalledSingle_append (h : cs.head?.any isTextBreak = false) :
    recalledSingle afterBreak (bs ++ cs) =
      recalledSingle afterBreak bs ++ recalledSingle false cs := by
  induction bs generalizing afterBreak with
  | nil => exact recalledSingle_of_head h
  | cons b bs ih =>
      have hhead : (bs ++ cs).head?.any isTextBreak = bs.head?.any isTextBreak := by
        cases bs with
        | nil => exact h
        | cons b' bs => rfl
      rw [List.cons_append, recalledSingle, recalledSingle, hhead, ih, List.append_assoc]

theorem not_mem_recalledSingle : '\u0085' ∉ recalledSingle afterBreak cs := by
  induction cs generalizing afterBreak with
  | nil => exact List.not_mem_nil
  | cons ch cs ih =>
      rw [recalledSingle, List.mem_append, not_or]
      refine ⟨?_, ih⟩
      split
      · rename_i h
        simpa using (bne_iff_ne.mp h).symm
      · split
        · decide
        · split <;> decide

/-- A text is read back without U+0085 only. -/
theorem recalledSingle_eq_self_iff : recalledSingle afterBreak cs = cs ↔ '\u0085' ∉ cs := by
  constructor
  · intro h
    rw [← h]
    exact not_mem_recalledSingle
  · intro h
    induction cs generalizing afterBreak with
    | nil => rfl
    | cons ch cs ih =>
        obtain ⟨hne, hcs⟩ := not_or.mp (mt List.mem_cons.mpr h)
        rw [recalledSingle_cons (Ne.symm hne), ih hcs]

end Recall

/-! ### Gaps -/

section Gaps

variable {c : Cursor} {n : Nat} {r : List Char}

theorem skipWhile_isWhite_spaces (hr : c.rest = spaces n ++ r)
    (hhead : ∀ ch ∈ r.head?, isWhite ch = false) : c.skipWhile isWhite = c.past (spaces n) := by
  refine Cursor.skipWhile_eq_past ?_ hr ?_ hhead
  · intro ch hm
    rw [mem_spaces hm]
    rfl
  · intro ch hm
    rw [mem_spaces hm]
    rfl

theorem quotedBreaks_of_spaces (hr : c.rest = spaces n ++ r)
    (hmark : atDocumentMark c.rest = false) (hhead : ∀ ch ∈ r.head?, isGap ch = false) :
    quotedBreaks c = some ([], c.past (spaces n)) := by
  have hspaces : c.skipWhile isWhite = c.past (spaces n) :=
    skipWhile_isWhite_spaces hr fun ch hm => isWhite_eq_false_of_isGap (hhead ch hm)
  have hend : (c.past (spaces n)).lineBreak? = none := by
    apply Cursor.lineBreak?_eq_none
    rw [Cursor.rest_past hr]
    exact fun ch hm => isBreak_eq_false_of_isGap (hhead ch hm)
  rw [quotedBreaks, hmark, if_neg Bool.false_ne_true]
  dsimp only
  split
  · simp only [hspaces]
  · rename_i h
    rw [hspaces, hend] at h
    cases h

theorem quotedBreaks_of_break {b : Char} {k : List Char} (hr : c.rest = b :: k)
    (hb : isTextBreak b = true) :
    quotedBreaks c =
      (quotedBreaks (c.past [b])).map fun (more, f) => (readBreak b :: more, f) := by
  have hbreak : isBreak b = true := isBreak_of_isTextBreak hb
  have hmark : atDocumentMark c.rest = false := hr ▸ atDocumentMark_of_isBreak k hbreak
  have hwhite : c.skipWhile isWhite = c := by
    apply Cursor.skipWhile_eq_self
    rw [hr]
    rintro ch ⟨⟩
    exact isWhite_eq_false_of_isBreak hbreak
  rw [quotedBreaks, hmark, if_neg Bool.false_ne_true]
  dsimp only
  split
  · rename_i h
    rw [hwhite, Cursor.lineBreak?_eq_past hr hb] at h
    cases h
  · rename_i h
    rw [hwhite, Cursor.lineBreak?_eq_past hr hb] at h
    cases h
    rfl

/-- Line ends in a row are read one by one, up to the spaces of the next line that holds
something. -/
theorem quotedBreaks_eq_past {bs : List Char} (hr : c.rest = bs ++ (spaces n ++ r))
    (hbs : ∀ b ∈ bs, isTextBreak b = true) (hn : 0 < n)
    (hhead : ∀ ch ∈ r.head?, isGap ch = false) :
    quotedBreaks c = some (bs.map readBreak, c.past (bs ++ spaces n)) := by
  induction bs generalizing c with
  | nil => exact quotedBreaks_of_spaces hr (hr ▸ atDocumentMark_spaces r hn) hhead
  | cons b bs ih =>
      obtain ⟨hb, hbs⟩ := List.forall_mem_cons.mp hbs
      rw [quotedBreaks_of_break hr hb, ih (Cursor.rest_past_one hr) hbs]
      rfl

theorem quotedGap_of_break {b : Char} {k bs : List Char} {d : Cursor} (hr : c.rest = b :: k)
    (hb : isTextBreak b = true) (hbs : quotedBreaks (c.past [b]) = some (bs, d)) :
    quotedGap c =
      some ((if readBreak b != '\n' then [readBreak b] else if bs.isEmpty then [' '] else []) ++ bs,
        d) := by
  have hwhite : c.skipWhile isWhite = c := by
    apply Cursor.skipWhile_eq_self
    rw [hr]
    rintro ch ⟨⟩
    exact isWhite_eq_false_of_isBreak (isBreak_of_isTextBreak hb)
  unfold quotedGap
  simp only [hwhite, Cursor.lineBreak?_eq_past hr hb, hbs]
  rfl

/-- A single line end is read as a space. -/
theorem quotedGap_fold (hr : c.rest = fold n ++ r) (hn : 0 < n)
    (hhead : ∀ ch ∈ r.head?, isGap ch = false) : quotedGap c = some ([' '], c.past (fold n)) := by
  have hrest : (c.past ['\n']).rest = [] ++ (spaces n ++ r) := Cursor.rest_past_one hr
  have hbs := quotedBreaks_eq_past hrest (by simp) hn hhead
  rw [quotedGap_of_break hr rfl hbs]
  rfl

/-- The characters that write line ends in a row: a line feed with which they begin is written
twice, since a reader takes the first one for a space. -/
def doubled : List Char → List Char
  | [] => []
  | b :: bs => (if b == '\n' then ['\n'] else []) ++ b :: bs

theorem quotedGap_doubled {b : Char} {bs : List Char}
    (hr : c.rest = doubled (b :: bs) ++ (spaces n ++ r))
    (hbs : ∀ ch ∈ b :: bs, isTextBreak ch = true) (hn : 0 < n)
    (hhead : ∀ ch ∈ r.head?, isGap ch = false) :
    quotedGap c =
      some (recalledSingle false (b :: bs), c.past (doubled (b :: bs) ++ spaces n)) := by
  by_cases hb : b = '\n'
  · subst hb
    have hrest : (c.past ['\n']).rest = ('\n' :: bs) ++ (spaces n ++ r) :=
      Cursor.rest_past_one hr
    rw [quotedGap_of_break hr rfl (quotedBreaks_eq_past hrest hbs hn hhead),
      ← recalledSingle_breaks hbs]
    rfl
  · obtain ⟨hfirst, hbs⟩ := List.forall_mem_cons.mp hbs
    have hdoubled : doubled (b :: bs) = b :: bs := by
      simp [doubled, hb]
    rw [hdoubled] at hr ⊢
    have hrest : (c.past [b]).rest = bs ++ (spaces n ++ r) := Cursor.rest_past_one hr
    rw [quotedGap_of_break hr hfirst (quotedBreaks_eq_past hrest hbs hn hhead),
      List.cons_append, Cursor.past_cons c b (bs ++ spaces n), recalledSingle, hfirst,
      recalledSingle_breaks hbs]
    by_cases hnext : b = '\u0085'
    · cases bs with
      | nil => simp [readBreak, hnext]
      | cons b' bs => simp [readBreak, hnext, hbs b' List.mem_cons_self]
    · simp [readBreak, hnext, hb]

end Gaps

/-! ### Parts of a quoted scalar -/

section Parts

variable {q ch : Char} {c : Cursor} {cs : List Char}

/-- The answer of a reader that went on behind a part with the given text. -/
def behind (text : List Char) (r : Except Fault (List Char × Cursor)) :
    Except Fault (List Char × Cursor) := r.map fun (more, e) => (text ++ more, e)

theorem behind_behind (text more : List Char) (r : Except Fault (List Char × Cursor)) :
    behind text (behind more r) = behind (text ++ more) r := by
  cases r with
  | error e => rfl
  | ok p => simp [behind, Except.map]

theorem quotedScalar_of_next {d : Cursor} {text : List Char} (hr : c.rest = ch :: cs)
    (hnext : (if isGap ch then (orMalformed (quotedGap c)).map fun (text, d) => (some text, d)
      else if ch == q then
        if q == '\'' && cs.head? == some '\'' then .ok (some ['\''], c.skip 2)
        else .ok (none, c.skip 1)
      else if q == '"' && ch == '\\' then
        (escape (c.skip 1)).map fun (text, d) => (some text, d)
      else .ok (some [ch], c.skip 1)) = .ok (some text, d))
    (hlt : d.rest.length < c.rest.length) :
    quotedScalar q c = behind text (quotedScalar q d) := by
  rw [quotedScalar]
  split
  · rename_i h
    rw [hr] at h
    cases h
  · rename_i h
    rw [hr] at h
    cases h
    rw [hnext]
    simp only [dif_pos hlt]
    rfl

theorem length_rest_past_lt {w k : List Char} (hr : c.rest = w ++ k) (hw : w ≠ []) :
    (c.past w).rest.length < c.rest.length := by
  rw [Cursor.rest_past hr, hr, List.length_append]
  exact Nat.lt_add_of_pos_left (List.length_pos_iff.mpr hw)

/-- A character that means nothing between the quotes is read as itself. -/
theorem quotedScalar_char (hr : c.rest = ch :: cs) (hgap : isGap ch = false) (hquote : ch ≠ q)
    (hescape : ch ≠ '\\' ∨ q = '\'') :
    quotedScalar q c = behind [ch] (quotedScalar q (c.past [ch])) := by
  have hplain : (q == '"' && ch == '\\') = false := by
    rcases hescape with h | rfl
    · simp [h]
    · rfl
  refine quotedScalar_of_next hr ?_ (length_rest_past_lt (w := [ch]) hr (by simp))
  simp [hgap, hquote, hplain, Cursor.skip_one_eq_past hr (isBreak_eq_false_of_isGap hgap)]

/-- A gap is read as a whole. -/
theorem quotedScalar_gap {w k text : List Char} (hw : c.rest = w ++ k)
    (hgap : w.head?.any isGap = true) (htext : quotedGap c = some (text, c.past w)) :
    quotedScalar q c = behind text (quotedScalar q (c.past w)) := by
  cases w with
  | nil => cases hgap
  | cons ch w =>
      refine quotedScalar_of_next hw ?_ (length_rest_past_lt hw (List.cons_ne_nil _ _))
      have hch : isGap ch = true := hgap
      rw [if_pos hch, htext]
      rfl

theorem quotedGap_white {w r : List Char} (hr : c.rest = w ++ r) (hw : ∀ ch ∈ w, isWhite ch = true)
    (hhead : ∀ ch ∈ r.head?, isGap ch = false) : quotedGap c = some (w, c.past w) := by
  have hnone : ∀ ch ∈ r.head?, isWhite ch = false := fun ch hm =>
    isWhite_eq_false_of_isGap (hhead ch hm)
  have hb : ∀ ch ∈ w, isBreak ch = false := fun ch hm => isBreak_eq_false_of_isWhite (hw ch hm)
  have hend : (c.past w).lineBreak? = none := by
    apply Cursor.lineBreak?_eq_none
    rw [Cursor.rest_past hr]
    exact fun ch hm => isBreak_eq_false_of_isGap (hhead ch hm)
  unfold quotedGap
  simp only [Cursor.skipWhile_eq_past hb hr hw hnone, hend]
  rw [hr, takeWhile_append_of_head hw hnone]

/-- White space is followed by a character on the same line. -/
def EndsOnLine (r : List Char) : Prop :=
  ∃ w k, r = w ++ k ∧ (∀ ch ∈ w, isWhite ch = true) ∧ ∀ ch ∈ k.head?, isGap ch = false

theorem EndsOnLine.space {r : List Char} (h : EndsOnLine r) : EndsOnLine (' ' :: r) := by
  obtain ⟨w, k, rfl, hw, hk⟩ := h
  exact ⟨' ' :: w, k, rfl, List.forall_mem_cons.mpr ⟨rfl, hw⟩, hk⟩

theorem endsOnLine_of_isGap {r : List Char} (h : ∀ ch ∈ r.head?, isGap ch = false) :
    EndsOnLine r := ⟨[], r, rfl, by simp, h⟩

/-- A space that does not lead to a line end is read as itself. -/
theorem quotedScalar_space {r : List Char} (hr : c.rest = ' ' :: r) (hend : EndsOnLine r) :
    quotedScalar q c = behind [' '] (quotedScalar q (c.past [' '])) := by
  obtain ⟨w, k, rfl, hw, hk⟩ := hend
  have hgap : quotedGap c = some (' ' :: w, c.past (' ' :: w)) :=
    quotedGap_white hr (List.forall_mem_cons.mpr ⟨rfl, hw⟩) hk
  have hrest : (c.past [' ']).rest = w ++ k := Cursor.rest_past_one hr
  rw [quotedScalar_gap (w := ' ' :: w) hr rfl hgap]
  cases w with
  | nil => rfl
  | cons x w =>
      have hwhite : isGap x = true := by
        simp [isGap, (List.forall_mem_cons.mp hw).1]
      rw [quotedScalar_gap hrest hwhite (quotedGap_white hrest hw hk),
        ← Cursor.past_append, behind_behind]
      rfl

/-- Between single quotes a quote is written twice. -/
theorem quotedScalar_twice (hr : c.rest = '\'' :: '\'' :: cs) :
    quotedScalar '\'' c = behind ['\''] (quotedScalar '\'' (c.past ['\'', '\''])) := by
  have htwo : c.rest = ['\'', '\''] ++ cs := hr
  have hskip : c.skip 2 = c.past ['\'', '\''] := Cursor.skip_eq_past (by simp [isBreak]) htwo
  refine quotedScalar_of_next hr ?_ (length_rest_past_lt (w := ['\'', '\'']) hr (by simp))
  simp [isGap, isWhite, isBreak, hskip]

/-- Between double quotes an escape begins with a backslash. -/
theorem quotedScalar_escape {w k text : List Char} (hr : c.rest = '\\' :: (w ++ k))
    (htext : escape (c.past ['\\']) = .ok (text, c.past ('\\' :: w))) :
    quotedScalar '"' c = behind text (quotedScalar '"' (c.past ('\\' :: w))) := by
  have hskip : c.skip 1 = c.past ['\\'] := Cursor.skip_one_eq_past hr rfl
  refine quotedScalar_of_next hr ?_ (length_rest_past_lt (w := '\\' :: w) hr (by simp))
  simp [isGap, isWhite, isBreak, hskip, htext, Except.map]

/-- The closing quote ends the scalar. -/
theorem quotedScalar_close (hr : c.rest = q :: cs) (hgap : isGap q = false)
    (hsingle : q = '\'' → cs.head? ≠ some '\'') :
    quotedScalar q c = .ok ([], c.past [q]) := by
  have htwice : (q == '\'' && cs.head? == some '\'') = false := by
    by_cases hq : q = '\''
    · simp [hsingle hq]
    · simp [hq]
  rw [quotedScalar]
  split
  · rename_i h
    rw [hr] at h
    cases h
  · rename_i h
    rw [hr] at h
    cases h
    simp [hgap, htwice, Cursor.skip_one_eq_past hr (isBreak_eq_false_of_isGap hgap)]

end Parts

/-- The characters behind the opening quote, up to and with the closing one, are read as the
text where `k` follows them. -/
def Quotes (q : Char) (k w text : List Char) : Prop :=
  ∀ c : Cursor, c.rest = w ++ k → quotedScalar q c = .ok (text, c.past w)

namespace Quotes

variable {q ch : Char} {k w text : List Char}

theorem step (w' : List Char) {text' : List Char} (h : Quotes q k w text)
    (hstep : ∀ c : Cursor, c.rest = w' ++ (w ++ k) →
      quotedScalar q c = behind text' (quotedScalar q (c.past w'))) :
    Quotes q k (w' ++ w) (text' ++ text) := by
  intro c hr
  rw [List.append_assoc] at hr
  rw [hstep c hr, h _ (Cursor.rest_past hr), Cursor.past_append]
  rfl

theorem close (hgap : isGap q = false) (hsingle : q = '\'' → k.head? ≠ some '\'') :
    Quotes q k [q] [] := fun _ hr => quotedScalar_close hr hgap hsingle

theorem char (h : Quotes q k w text) (hgap : isGap ch = false) (hquote : ch ≠ q)
    (hescape : ch ≠ '\\' ∨ q = '\'') : Quotes q k (ch :: w) (ch :: text) :=
  h.step [ch] fun _ hr => quotedScalar_char hr hgap hquote hescape

theorem twice (h : Quotes '\'' k w text) : Quotes '\'' k ('\'' :: '\'' :: w) ('\'' :: text) :=
  h.step ['\'', '\''] fun _ hr => quotedScalar_twice hr

theorem space (h : Quotes q k w text) (hend : EndsOnLine (w ++ k)) :
    Quotes q k (' ' :: w) (' ' :: text) :=
  h.step [' '] fun _ hr => quotedScalar_space hr hend

theorem fold {n : Nat} (h : Quotes q k w text) (hn : 0 < n)
    (hhead : ∀ ch ∈ (w ++ k).head?, isGap ch = false) :
    Quotes q k (Yaml.fold n ++ w) (' ' :: text) :=
  h.step _ fun _ hr => quotedScalar_gap hr rfl (quotedGap_fold hr hn hhead)

theorem breaks {n : Nat} {b : Char} {bs : List Char} (h : Quotes q k w text) (hn : 0 < n)
    (hbs : ∀ ch ∈ b :: bs, isTextBreak ch = true)
    (hhead : ∀ ch ∈ (w ++ k).head?, isGap ch = false) :
    Quotes q k (doubled (b :: bs) ++ (spaces n ++ w)) (recalledSingle false (b :: bs) ++ text) := by
  rw [← List.append_assoc]
  refine h.step _ fun c hr => ?_
  have hgap : (doubled (b :: bs) ++ spaces n).head?.any isGap = true := by
    by_cases hb : b = '\n'
    · subst hb
      rfl
    · simp [doubled, hb, isGap_of_isBreak (isBreak_of_isTextBreak (hbs b List.mem_cons_self))]
  refine quotedScalar_gap hr hgap (quotedGap_doubled ?_ hbs hn hhead)
  rw [hr, List.append_assoc]

end Quotes

end TaggedGrammar.Yaml
