import TaggedGrammar.Proofs.Yaml.Collection

/-!
# Written nodes and lines as tokens

`Reads` says that the characters behind an indicator or a colon are read as the tokens of a node,
`Lines` that lines at a column are read as the tokens of items or entries. Each is put together
from the other, as a document is written: items and entries from nodes, lines from lines, and
collections from their lines. A key that is written too long on the line of its colon is not found
there, and the reading stops; `Reads` and `Lines` carry the proposition that there is none.

## Main statements

* `Reads.text`, `Reads.brackets`: nodes on one line.
* `Reads.onLine`, `Reads.below`, `Reads.loose`: collections, by where they begin.
* `Lines.append`, `Lines.item`, `Lines.entry`, `Lines.longEntry`: lines of collections.

## Implementation notes

Both end at the beginning of the line behind them, where collections further right are closed: the
column of that line is a parameter, so that one statement serves inside and at the end of every
collection.
-/

namespace TaggedGrammar.Yaml

namespace Lexing

/-- Characters that stand behind an indicator or a colon in a collection at column `i`, and the
tokens as which they are read when the next line begins there or further left, if `p` holds. On
the line of an indicator a collection may begin, two columns further in. -/
structure Reads (p : Prop) (i : Nat) (inline : Bool) (w : List Char) (ts : List Token) :
    Prop where
  front : ∃ ch v, w = ch :: v ∧ isGap ch = true
  chars : ∀ ch ∈ w, isAllowed ch = true ∧ ch ≠ '\r'
  leads : ∀ {c : Cursor} (us : List Token) (outer : List Int) {k : List Char} {m : Nat},
    c.rest = w ++ (fold m ++ k) → NextLine m k → m ≤ i → i ≤ c.column →
    (inline = true → c.column = i + 1) →
    Attains Leads p (block c us i outer none inline)
      ((block (c.past (w ++ fold m)) (us ++ ts) i outer none true).unwind m)

/-- Characters that are lines of a collection in block form at column `i`, and the tokens as
which they are read behind those that open it, when the next line begins at this column or
further left, if `p` holds. -/
structure Lines (p : Prop) (form : Form) (i : Nat) (w : List Char) (ts : List Token) :
    Prop where
  front : ∀ k, NextLine i (w ++ k)
  chars : ∀ ch ∈ w, isAllowed ch = true ∧ ch ≠ '\r'
  steps : ∀ {c : Cursor} {us us' : List Token} {indent : Int} {outer outer' : List Int}
      {k : List Char} {m : Nat},
    c.rest = w ++ (fold m ++ k) → NextLine m k → m ≤ i → c.column = i →
    Opens form i us indent outer us' outer' →
    Attains (Relation.ReflTransGen Step) p (block c us indent outer none true)
      ((block (c.past (w ++ fold m)) (us' ++ ts) i outer' none true).unwind m)

variable {p q : Prop} {i j : Nat} {inline : Bool} {v w : List Char} {ks ts us : List Token}
variable {form : Form}

theorem Reads.congr (hpq : p ↔ q) (h : Reads p i inline w ts) : Reads q i inline w ts :=
  propext hpq ▸ h

theorem Lines.congr (hpq : p ↔ q) (h : Lines p form i w ts) : Lines q form i w ts :=
  propext hpq ▸ h

theorem isAllowed_of_mem_fold (n : Nat) : ∀ ch ∈ fold n, isAllowed ch = true ∧ ch ≠ '\r' :=
  forall_mem_fold ⟨by decide, by decide⟩ n

theorem Reads.atGap (h : Reads p i inline w ts) (k : List Char) : atGap (w ++ k) = true := by
  obtain ⟨ch, v, rfl, hgap⟩ := h.front
  exact hgap

/-! ### Nodes -/

theorem Reads.text {s : String} {written column : Nat} (hwritten : i < written)
    (hwidth : written < lineWidth) :
    Reads True i inline (' ' :: writeText written column s) [.scalar (recalled false s)] where
  front := ⟨' ', _, rfl, rfl⟩
  chars := List.forall_mem_cons.mpr ⟨by decide, isAllowed_of_mem_writeScalar false⟩
  leads us outer _ _ hr hk hm hcolumn _ :=
    .of (leads_text hr hk (by omega) hwidth (by omega) (by omega))

theorem Reads.brackets {a b : Char} (h : IsBrackets form a b) :
    Reads True i inline [' ', a, b] [.opening form, .closing form] where
  front := ⟨' ', _, rfl, rfl⟩
  chars := List.forall_mem_cons.mpr ⟨by decide, h.chars⟩
  leads us outer _ _ hr hk _ hcolumn _ := .of (leads_brackets h hr hk (by omega))

/-- A collection begins on the line of the indicator before it. -/
theorem Reads.onLine (h : Lines p form (i + 2) w ts) :
    Reads p i true (' ' :: w) (.opening form :: ts ++ [.blockEnd]) where
  front := ⟨' ', _, rfl, rfl⟩
  chars := List.forall_mem_cons.mpr ⟨by decide, h.chars⟩
  leads := by
    intro c us outer k m hr hk hm hcolumn hinline
    have hnext : (c.past [' ']).column = i + 2 := by
      rw [Cursor.column_past_one hr rfl (by decide), hinline rfl]
    have hstart : (block c us i outer none true).advance =
        some (block (c.past [' ']) us i outer none true) :=
      advance_spaces (n := 1) hr (h.front _).head rfl (by omega)
    have hopens : Opens form (i + 2) us i outer (us ++ [.opening form]) (i :: outer) :=
      .deeper outer (by omega)
    have hlines := h.steps (Cursor.rest_past_one hr) hk (by omega) hnext hopens
    rw [unwind_of_lt (by omega), ← Cursor.past_cons] at hlines
    simpa using hlines.advance hstart

/-- A collection begins on the line below that of its key. -/
theorem Reads.below (h : Lines p form j w ts) (hij : i < j) :
    Reads p i false (fold j ++ w) (.opening form :: ts ++ [.blockEnd]) where
  front := ⟨'\n', _, rfl, rfl⟩
  chars := List.forall_mem_append.mpr ⟨isAllowed_of_mem_fold j, h.chars⟩
  leads := by
    intro c us outer k m hr hk hm hcolumn hinline
    rw [List.append_assoc] at hr
    have hstart : (block c us i outer none false).advance =
        some (block (c.past (fold j)) us i outer none true) := by
      rw [advance_fold hr (h.front _).head (by simp [IsStale]), unwind_of_le (by omega)]
    have hopens : Opens form j us i outer (us ++ [.opening form]) (i :: outer) :=
      .deeper outer (by omega)
    have hlines := h.steps (Cursor.rest_past hr) hk (by omega) (Cursor.column_past_fold hr) hopens
    rw [unwind_of_lt (by omega), ← Cursor.past_append] at hlines
    simpa using hlines.advance hstart

/-- A list in an entry is not indented, and nothing tells where it begins and ends. -/
theorem Reads.loose (h : Lines p .blockSequence i w ts) : Reads p i false (fold i ++ w) ts where
  front := ⟨'\n', _, rfl, rfl⟩
  chars := List.forall_mem_append.mpr ⟨isAllowed_of_mem_fold i, h.chars⟩
  leads := by
    intro c us outer k m hr hk hm hcolumn hinline
    rw [List.append_assoc] at hr
    have hstart : (block c us i outer none false).advance =
        some (block (c.past (fold i)) us i outer none true) := by
      rw [advance_fold hr (h.front _).head (by simp [IsStale]), unwind_of_le (by omega)]
    have hopens : Opens .blockSequence i us i outer us outer := .here outer
    have hlines := h.steps (Cursor.rest_past hr) hk hm (Cursor.column_past_fold hr) hopens
    rw [← Cursor.past_append] at hlines
    simpa using hlines.advance hstart

/-! ### Lines of collections -/

theorem Lines.append (h : Lines p form i v ks) (hrest : Lines q form i w ts) :
    Lines (p ∧ q) form i (v ++ (fold i ++ w)) (ks ++ ts) where
  front k := by simpa using h.front (fold i ++ w ++ k)
  chars := List.forall_mem_append.mpr
    ⟨h.chars, List.forall_mem_append.mpr ⟨isAllowed_of_mem_fold i, hrest.chars⟩⟩
  steps := by
    intro c us us' indent outer outer' k m hr hk hm hcolumn hopens
    have hfirst : c.rest = v ++ (fold i ++ (w ++ (fold m ++ k))) := by simpa using hr
    have hsteps := h.steps hfirst (hrest.front _) (Nat.le_refl _) hcolumn hopens
    rw [unwind_of_le (Int.le_refl _), Cursor.past_append] at hsteps
    have hbehind : (c.past v).rest = fold i ++ (w ++ (fold m ++ k)) := Cursor.rest_past hfirst
    have hgoes : Opens form i (us' ++ ks) i outer' (us' ++ ks) outer' := .here outer'
    have hmore := hrest.steps (Cursor.rest_past hbehind) hk hm (Cursor.column_past_fold hbehind)
      hgoes
    rw [← Cursor.past_append, ← Cursor.past_append] at hmore
    rw [← Cursor.past_append] at hsteps
    simpa using hsteps.trans hmore fun u => Relation.ReflTransGen.trans

theorem nextLine_cons {ch d : Char} {cs : List Char} (hgap : isGap ch = false) (hsharp : ch ≠ '#')
    (hmark : ch ≠ byteOrderMark) (hd : isGap d = true) : NextLine i (ch :: d :: cs) where
  head := by
    rintro x ⟨⟩
    exact ⟨hgap, hsharp, hmark⟩
  mark := by
    cases i with
    | zero => exact atDocumentMark_of_atGap ch hd
    | succ i => exact atDocumentMark_spaces _ (Nat.succ_pos i)

theorem Lines.item (h : Reads p i true w ts) :
    Lines p .blockSequence i ('-' :: w) (.mark .entry :: ts) where
  front k := by
    obtain ⟨ch, v, rfl, hgap⟩ := h.front
    exact nextLine_cons rfl (by decide) (by decide) hgap
  chars := List.forall_mem_cons.mpr ⟨by decide, h.chars⟩
  steps := by
    intro c us us' indent outer outer' k m hr hk hm hcolumn hopens
    subst hcolumn
    have hnext : (c.past ['-']).column = c.column + 1 :=
      Cursor.column_past_one hr rfl (by decide)
    have hleads := h.leads (us' ++ [.mark .entry]) outer' (Cursor.rest_past_one hr) hk hm
      (by omega) fun _ => hnext
    have hsteps := hleads.behind (w := ['-']) hr (readToken_entry hopens hr (h.atGap _)) rfl
      (by simp)
    rw [← Cursor.past_cons] at hsteps
    simpa using hsteps

theorem Lines.entry {cs : List Char} (hsimple : isSimpleKey cs = true) (hi : 0 < i)
    (h : Reads p i false w ts) :
    Lines ((writeKey cs).length ≤ keyReach ∧ p) .blockMapping i (writeKey cs ++ ':' :: w)
      (.mark .key :: .scalar (String.ofList (recalledChars true cs)) :: .mark .value :: ts) where
  front k := by
    refine ⟨?_, atDocumentMark_spaces _ hi⟩
    rw [List.append_assoc]
    exact atToken_writeScalar true false 0 0 cs _
  chars := List.forall_mem_append.mpr ⟨isAllowed_of_mem_writeScalar true,
    List.forall_mem_cons.mpr ⟨by decide, h.chars⟩⟩
  steps := by
    intro c us us' indent outer outer' k m hr hk hm hcolumn hopens
    subst hcolumn
    have hkey : c.rest = writeKey cs ++ ':' :: (w ++ (fold m ++ k)) := by simpa using hr
    have hcolon : c.rest = (writeKey cs ++ [':']) ++ (w ++ (fold m ++ k)) := by simpa using hr
    have hle : c.column ≤ (c.past (writeKey cs ++ [':'])).column := by
      refine Cursor.column_le_past (List.forall_mem_append.mpr ⟨?_, by simp [isBreak]⟩)
      exact isBreak_of_mem_writeScalar true (isTextBreak_of_isSimpleKey hsimple)
    have hleads := h.leads
      (us' ++ [.mark .key, .scalar (String.ofList (recalledChars true cs)), .mark .value]) outer'
      (Cursor.rest_past hcolon) hk hm hle (by simp)
    have hsteps := attains_key hsimple hkey (h.atGap _) (by omega) hopens hleads
    rw [← Cursor.past_append] at hsteps
    simpa using hsteps

/-- A key that stands behind a question mark, and its value behind a colon on a line of its
own. -/
theorem Lines.longEntry (hkey : Reads p i true v ks) (h : Reads q i true w ts) :
    Lines (p ∧ q) .blockMapping i ('?' :: v ++ (fold i ++ ':' :: w))
      (.mark .key :: ks ++ .mark .value :: ts) where
  front k := by
    obtain ⟨ch, u, rfl, hgap⟩ := hkey.front
    exact nextLine_cons rfl (by decide) (by decide) hgap
  chars := List.forall_mem_append.mpr
    ⟨List.forall_mem_cons.mpr ⟨by decide, hkey.chars⟩, List.forall_mem_append.mpr
      ⟨isAllowed_of_mem_fold i, List.forall_mem_cons.mpr ⟨by decide, h.chars⟩⟩⟩
  steps := by
    intro c us us' indent outer outer' k m hr hk hm hcolumn hopens
    subst hcolumn
    have hmark : c.rest = '?' :: ((v ++ fold c.column) ++ ':' :: (w ++ (fold m ++ k))) := by
      simpa using hr
    have hkeyRest : (c.past ['?']).rest = (v ++ fold c.column) ++ ':' :: (w ++ (fold m ++ k)) :=
      Cursor.rest_past_one hmark
    have hcolon : ((c.past ['?']).past (v ++ fold c.column)).rest = ':' :: (w ++ (fold m ++ k)) :=
      Cursor.rest_past hkeyRest
    have hcolumn : ((c.past ['?']).past (v ++ fold c.column)).column = c.column := by
      rw [List.append_assoc] at hkeyRest
      rw [Cursor.past_append, Cursor.column_past_fold (Cursor.rest_past hkeyRest)]
    have hline : NextLine c.column (':' :: (w ++ (fold m ++ k))) := by
      obtain ⟨ch, u, rfl, hgap⟩ := h.front
      exact nextLine_cons rfl (by decide) (by decide) hgap
    have hnext : (c.past ['?']).column = c.column + 1 :=
      Cursor.column_past_one hmark rfl (by decide)
    -- The key ends on the line of the colon, where nothing is closed.
    have hfirst := hkey.leads (us' ++ [.mark .key]) outer' (by simpa using hkeyRest) hline
      (Nat.le_refl _) (by omega) fun _ => hnext
    rw [unwind_of_le (Int.le_refl _)] at hfirst
    have hvalue := h.leads (us' ++ [.mark .key] ++ ks ++ [.mark .value]) outer'
      (Cursor.rest_past_one hcolon) hk hm ?_ ?_
    · have hread : (block ((c.past ['?']).past (v ++ fold c.column)) (us' ++ [.mark .key] ++ ks)
          ((c.past ['?']).past (v ++ fold c.column)).column outer' none true).readToken ':' _ = _ :=
        readToken_value hcolon (h.atGap _)
      rw [hcolumn] at hread
      have hboth := hfirst.trans (hvalue.behind (w := [':']) hcolon hread rfl (by simp))
        fun _ => Leads.trans
      have hgap : atGap ((v ++ fold c.column) ++ ':' :: (w ++ (fold m ++ k))) = true := by
        simpa using hkey.atGap _
      have hsteps := hboth.behind (w := ['?']) hmark (readToken_key hopens hmark hgap) rfl (by simp)
      rw [← Cursor.past_cons, ← Cursor.past_append, ← Cursor.past_append] at hsteps
      simpa using hsteps
    · rw [Cursor.column_past_one hcolon rfl (by decide)]
      omega
    · intro _
      rw [Cursor.column_past_one hcolon rfl (by decide), hcolumn]

end Lexing

end TaggedGrammar.Yaml
