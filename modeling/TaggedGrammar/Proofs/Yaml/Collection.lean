import TaggedGrammar.Proofs.Yaml.Node

/-!
# Marks and brackets as tokens

The hyphen of an item, the question mark and the colon of an entry, and the brackets of an empty
collection. A mark in block form opens its collection unless that is the innermost one, which
`Opens` tells; a key on the line of its colon is announced behind its token, at the place that was
remembered.

## Main statements

* `readToken_entry`, `readToken_key`, `readToken_value`: marks.
* `attains_key`: a key on the line of its colon.
* `steps_brackets`: an empty collection.
-/

namespace TaggedGrammar.Yaml

namespace Lexing

/-! ### Marks in block form -/

/-- How the tokens and the open collections change where a collection in block form goes on at a
column: it is opened there, unless it is the innermost one. -/
inductive Opens (form : Form) (i : Nat) (ts : List Token) :
    Int → List Int → List Token → List Int → Prop
  | deeper {indent : Int} (outer : List Int) (h : indent < i) :
      Opens form i ts indent outer (ts ++ [.opening form]) (indent :: outer)
  | here (outer : List Int) : Opens form i ts i outer ts outer

section Marks

variable {c : Cursor} {ts ts' : List Token} {indent : Int} {outer outer' : List Int}
variable {form : Form} {i : Nat} {next : List Char}

theorem Opens.le (h : Opens form i ts indent outer ts' outer') : indent ≤ i := by
  cases h with
  | deeper outer h => exact Int.le_of_lt h
  | here outer => exact Int.le_refl _

theorem openBlock_block (h : Opens form c.column ts indent outer ts' outer') :
    (block c ts indent outer none true).openBlock form =
      some (block c ts' c.column outer' none true) := by
  cases h with
  | deeper outer h => simp [openBlock, block, inFlow, isDeeper, deepen, emit, h]
  | here outer => simp [openBlock, block, inFlow, isDeeper]

theorem readToken_entry (h : Opens .blockSequence c.column ts indent outer ts' outer')
    (hr : c.rest = '-' :: next) (hgap : atGap next = true) :
    (block c ts indent outer none true).readToken '-' next =
      .ok (block (c.past ['-']) (ts' ++ [.mark .entry]) c.column outer' none true) := by
  have hmark : atDocumentMark ('-' :: next) = false := atDocumentMark_of_atGap '-' hgap
  have hentry : (block c ts indent outer none true).readEntry =
      some (block (c.skip 1) (ts' ++ [.mark .entry]) c.column outer' none true) := by
    simp only [readEntry, openBlock_block h, Option.bind_eq_bind, Option.bind_some]
    rw [← emit_block]
    rfl
  simp [readToken, readUnquoted, hmark, hgap, hentry, Cursor.skip_one_eq_past hr rfl, orMalformed]

theorem readToken_key (h : Opens .blockMapping c.column ts indent outer ts' outer')
    (hr : c.rest = '?' :: next) (hgap : atGap next = true) :
    (block c ts indent outer none true).readToken '?' next =
      .ok (block (c.past ['?']) (ts' ++ [.mark .key]) c.column outer' none true) := by
  have hkey : (block c ts indent outer none true).readKey =
      some (block (c.skip 1) (ts' ++ [.mark .key]) c.column outer' none true) := by
    simp only [readKey, openBlock_block h, Option.bind_eq_bind, Option.bind_some]
    rw [← emit_block]
    rfl
  simp [readToken, readUnquoted, hgap, hkey, Cursor.skip_one_eq_past hr rfl, orMalformed]

theorem readToken_colon {s : Lexing} (hgap : atGap next = true) :
    s.readToken ':' next = orMalformed s.readValue := by
  simp [readToken, readUnquoted, hgap]

/-- The colon on a line of its own, behind a key with a question mark. -/
theorem readToken_value (hr : c.rest = ':' :: next) (hgap : atGap next = true) :
    (block c ts c.column outer none true).readToken ':' next =
      .ok (block (c.past [':']) (ts ++ [.mark .value]) c.column outer none true) := by
  have hopen : (block c ts c.column outer none true).openBlock .blockMapping =
      some (block c ts c.column outer none true) := openBlock_block (.here outer)
  have hvalue : (block c ts c.column outer none true).readValue =
      some (block (c.skip 1) (ts ++ [.mark .value]) c.column outer none true) := by
    rw [← emit_block, readValue]
    simp only [key_block, hopen, Option.bind_eq_bind, Option.bind_some]
    rfl
  rw [readToken_colon hgap, hvalue, Cursor.skip_one_eq_past hr rfl]
  rfl

theorem readValue_of_key {s : Lexing} {place : KeyStart} (h : s.key = some place) :
    s.readValue = some (((((s.announceKey place).allowKey false).emit (.mark .value))).moveTo
      ((s.announceKey place).cursor.skip 1)) := by
  rw [readValue, h]
  rfl

/-- The colon on the line of a key of one token announces the key in front of that token. -/
theorem readToken_announce {d : Cursor} {t : Token}
    (h : Opens .blockMapping c.column ts indent outer ts' outer')
    (hr : d.rest = ':' :: next) (hgap : atGap next = true) :
    (block d (ts ++ [t]) indent outer (possibleKey c ts indent true) false).readToken ':' next =
      .ok (block (d.past [':']) (ts' ++ [.mark .key, t, .mark .value]) c.column outer' none
        false) := by
  have hannounce : (block d (ts ++ [t]) indent outer (possibleKey c ts indent true)
      false).announceKey ⟨ts.length, indent == c.column, c.index, c.line, c.column⟩ =
      block d (ts' ++ [.mark .key, t]) c.column outer' none false := by
    cases h with
    | deeper outer h => simp [announceKey, block, inFlow, isDeeper, deepen, insertAt, h]
    | here outer => simp [announceKey, block, inFlow, isDeeper, insertAt]
  have happend : ts' ++ [.mark .key, t, .mark .value] =
      (ts' ++ [.mark .key, t]) ++ [.mark .value] := by simp
  have hkey : (block d (ts ++ [t]) indent outer (possibleKey c ts indent true) false).key =
      some ⟨ts.length, indent == c.column, c.index, c.line, c.column⟩ := rfl
  rw [readToken_colon hgap, readValue_of_key hkey, hannounce, allowKey_block, emit_block,
    moveTo_block, happend, ← Cursor.skip_one_eq_past hr rfl]
  rfl

theorem isTextBreak_of_isSimpleKey {cs : List Char} (h : isSimpleKey cs = true) :
    ∀ ch ∈ cs, isTextBreak ch = false := by
  simp only [isSimpleKey, Bool.and_eq_true, Bool.not_eq_true', List.any_eq_false,
    Bool.not_eq_true] at h
  exact h.1.2

/-- The longest key that is found on the line of its colon. -/
def keyReach : Nat := 1024

theorem refreshKey_possibleKey {d : Cursor} {allowed : Bool} (hline : d.line = c.line)
    (hindex : d.index ≤ c.index + keyReach) :
    refreshKey d (possibleKey c ts indent allowed) = some (possibleKey c ts indent allowed) := by
  cases allowed with
  | false => rfl
  | true =>
      have hnear : ¬c.index + 1024 < d.index := Nat.not_lt.mpr hindex
      simp [possibleKey, refreshKey, hline, hnear]

/-- A key that ends too far from where it began is given up, or is an error. -/
theorem refreshKey_eq_of_lt {d : Cursor} (h : c.index + keyReach < d.index) :
    refreshKey d (possibleKey c ts indent true) =
      if indent == c.column then none else some none := by
  have hfar : c.index + 1024 < d.index := h
  simp [possibleKey, refreshKey, hfar]

/-- A colon where no key may begin is an error behind a node. -/
theorem readToken_colon_of_none (hgap : atGap next = true) :
    (block c ts indent outer none false).readToken ':' next = .error .malformed := by
  rw [readToken_colon hgap]
  rfl

theorem advance_colon {d : Cursor} {key : Option KeyStart} (hr : d.rest = ':' :: next) :
    (block d ts indent outer key false).advance = (refreshKey d key).map fun key' =>
      (block d ts indent outer key' false).unwind d.column := by
  apply advance_token
  rw [hr]
  simp [AtToken, isGap, isWhite, isBreak, byteOrderMark]

/-- The colon behind a key that began too far from it. -/
theorem stuck_colon {d : Cursor} {s : Lexing} {ch : Char} {rest : List Char}
    (hfar : c.index + keyReach < d.index) (hr : d.rest = ':' :: next) (hgap : atGap next = true)
    (hcolumn : indent ≤ d.column) (hcons : s.cursor.rest = ch :: rest)
    (hread : s.readToken ch rest =
      .ok (block d ts' indent outer (possibleKey c ts indent true) false))
    (hlt : d.rest.length < s.cursor.rest.length) :
    ∃ t, Relation.ReflTransGen Step s t ∧ t.Stuck := by
  have hadvance : (block d ts' indent outer (possibleKey c ts indent true) false).advance =
      (if indent == c.column then none else some none).map fun key' =>
        (block d ts' indent outer key' false).unwind d.column := by
    rw [advance_colon hr, refreshKey_eq_of_lt hfar]
  cases hrequired : indent == c.column with
  | true =>
      rw [hrequired] at hadvance
      exact ⟨s, .refl, ch, rest, hcons, Or.inr ⟨_, hread, hadvance⟩⟩
  | false =>
      rw [hrequired, if_neg Bool.false_ne_true, Option.map_some, unwind_of_le hcolumn] at hadvance
      exact ⟨_, .single ⟨ch, rest, _, hcons, hread, hlt, hadvance⟩, ':', next, hr,
        Or.inl ⟨_, readToken_colon_of_none hgap⟩⟩

/-- A key on the line of its colon, which is found to be one at the colon if it begins near enough
to it. -/
theorem attains_key {cs : List Char} {p : Prop} {t : Lexing} (hsimple : isSimpleKey cs = true)
    (hr : c.rest = writeKey cs ++ ':' :: next) (hgap : atGap next = true) (hpos : c.column ≠ 0)
    (hopens : Opens .blockMapping c.column ts indent outer ts' outer')
    (h : Attains Leads p (block (c.past (writeKey cs ++ [':']))
      (ts' ++ [.mark .key, .scalar (String.ofList (recalledChars true cs)), .mark .value])
      c.column outer' none false) t) :
    Attains (Relation.ReflTransGen Step) ((writeKey cs).length ≤ keyReach ∧ p)
      (block c ts indent outer none true) t := by
  have hbreaks : ∀ ch ∈ cs, isTextBreak ch = false := isTextBreak_of_isSimpleKey hsimple
  obtain ⟨ch, rest, d, broke, hcons, hread, hd⟩ := exists_readToken_scalar ts outer true hr
    (by simp) (fun _ => hbreaks) hopens.le hpos (by simp) (endsPlain_colon hgap)
  have hcolon : (c.past (writeKey cs)).rest = ':' :: next := Cursor.rest_past hr
  have hbehind : d = c.past (writeKey cs) ∧ broke = false := by
    rcases hd with he | ⟨hcursor, hbroke⟩
    · exact he
    · have hgap : plainGap (c.past (writeKey cs)) = ⟨[], c.past (writeKey cs), false⟩ :=
        plainGap_spaces (n := 0) hcolon (by simp [isGap, isWhite, isBreak])
      exact ⟨hcursor.trans (congrArg PlainGap.cursor hgap),
        hbroke.trans (congrArg PlainGap.brokeLine hgap)⟩
  obtain ⟨rfl, rfl⟩ := hbehind
  have hne : writeKey cs ≠ [] := writeScalar_styleOf_ne_nil true false 0 0 cs
  have hline : (c.past (writeKey cs)).line = c.line :=
    Cursor.line_past (isBreak_of_mem_writeScalar true hbreaks)
  have hindex : (c.past (writeKey cs)).index = c.index + (writeKey cs).length :=
    Cursor.index_past c (writeKey cs)
  have hcolumn : indent ≤ (c.past (writeKey cs)).column := by
    have hle : c.column ≤ (c.past (writeKey cs)).column :=
      Cursor.column_le_past (isBreak_of_mem_writeScalar true hbreaks)
    exact Int.le_trans hopens.le (Int.ofNat_le.mpr hle)
  by_cases hlength : (writeKey cs).length ≤ keyReach
  · have hkey : refreshKey (c.past (writeKey cs)) (possibleKey c ts indent true) =
        some (possibleKey c ts indent true) := refreshKey_possibleKey hline (by omega)
    have hadvance : (block (c.past (writeKey cs))
        (ts ++ [.scalar (String.ofList (recalledChars true cs))]) indent outer
        (possibleKey c ts indent true) false).advance = some (block (c.past (writeKey cs))
          (ts ++ [.scalar (String.ofList (recalledChars true cs))]) indent outer
          (possibleKey c ts indent true) false) := by
      rw [advance_colon hcolon, hkey, Option.map_some, unwind_of_le hcolumn]
    rw [Cursor.past_append] at h
    have hfound := h.behind (w := [':']) hcolon (readToken_announce hopens hcolon hgap) rfl
      (by simp)
    have hsteps := (hfound.advance hadvance).behind (w := writeKey cs) hcons hread rfl hne
    exact ⟨fun hp => hsteps.reaches hp.2, fun hp => hsteps.stops fun hq => hp ⟨hlength, hq⟩⟩
  · refine ⟨fun hp => absurd hp.1 hlength, fun _ => ?_⟩
    have hlt : (c.past (writeKey cs)).rest.length < c.rest.length := by
      have hpositive := List.length_pos_iff.mpr hne
      rw [hcolon, hr, List.length_append]
      omega
    exact stuck_colon (by omega) hcolon hgap hcolumn hcons hread hlt

end Marks

/-! ### Empty collections -/

section Brackets

variable {c : Cursor} {ts : List Token} {indent : Int} {outer : List Int} {allowed : Bool}
variable {form : Form} {a b : Char} {k : List Char} {m : Nat}

/-- The characters that begin and end a collection of a form in brackets. -/
structure IsBrackets (form : Form) (a b : Char) : Prop where
  openFlow : ∀ (s : Lexing) (next : List Char), s.readToken a next = orMalformed (s.openFlow form)
  closeFlow : ∀ (s : Lexing) (next : List Char),
    s.readToken b next = orMalformed (s.closeFlow form)
  head : ∀ ch ∈ [a, b], isGap ch = false ∧ ch ≠ '#' ∧ ch ≠ byteOrderMark
  chars : ∀ ch ∈ [a, b], isAllowed ch = true ∧ ch ≠ '\r'

theorem isBrackets_sequence : IsBrackets .flowSequence '[' ']' where
  openFlow _ _ := rfl
  closeFlow _ _ := rfl
  head := by simp [isGap, isWhite, isBreak, byteOrderMark]
  chars := by simp [isAllowed]

theorem isBrackets_mapping : IsBrackets .flowMapping '\x7b' '\x7d' where
  openFlow _ _ := rfl
  closeFlow _ _ := rfl
  head := by simp [isGap, isWhite, isBreak, byteOrderMark]
  chars := by simp [isAllowed]

/-- The state behind an opening bracket. -/
def bracket (c : Cursor) (ts : List Token) (indent : Int) (outer : List Int)
    (key : Option KeyStart) : Lexing :=
  { block c ts indent outer none true with outerKeys := [key] }

theorem readToken_opening (h : IsBrackets form a b) (hr : c.rest = a :: b :: k) :
    (block c ts indent outer none allowed).readToken a (b :: k) =
      .ok (bracket (c.past [a]) (ts ++ [.opening form]) indent outer
        (possibleKey c ts indent allowed)) := by
  have hbreak : isBreak a = false := isBreak_eq_false_of_isGap (h.head a (by simp)).1
  rw [h.openFlow, openFlow, saveKey_block, ← Cursor.skip_one_eq_past hr hbreak]
  simp [orMalformed, bracket, block, emit]

theorem advance_bracket {key : Option KeyStart} (hk : AtToken c.rest)
    (hkey : refreshKey c key = some key) :
    (bracket c ts indent outer key).advance = some (bracket c ts indent outer key) := by
  have hmark : (c.index == 0 && c.rest.head? == some byteOrderMark) = false := by
    simp [show c.rest.head? ≠ some byteOrderMark from fun hm => (hk _ hm).2.2 rfl]
  have htoken : toToken true true c = (true, c) := toToken_spaces (n := 0) true true rfl hk
  have hnone : refreshKey c none = some none := rfl
  simp [advance, bracket, block, hmark, inFlow, htoken, moveTo, allowKey, refreshKeys, hkey, hnone,
    unwind]

theorem readToken_closing {key : Option KeyStart} (h : IsBrackets form a b)
    (hr : c.rest = b :: k) :
    (bracket c ts indent outer key).readToken b k =
      .ok (block (c.past [b]) (ts ++ [.closing form]) indent outer key false) := by
  have hbreak : isBreak b = false := isBreak_eq_false_of_isGap (h.head b (by simp)).1
  rw [h.closeFlow, closeFlow, ← Cursor.skip_one_eq_past hr hbreak]
  simp [orMalformed, bracket, block, emit, dropKey]

/-- An empty collection is two tokens, and the next begins on a new line. -/
theorem steps_brackets (h : IsBrackets form a b) (hr : c.rest = a :: b :: (fold m ++ k))
    (hk : NextLine m k) (hcolumn : indent < c.column) :
    Relation.ReflTransGen Step (block c ts indent outer none allowed)
      ((block (c.past (a :: b :: fold m)) (ts ++ [.opening form, .closing form]) indent outer none
        true).unwind m) := by
  have hclose : (c.past [a]).rest = b :: (fold m ++ k) := Cursor.rest_past_one hr
  have hbehind : ((c.past [a]).past [b]).rest = fold m ++ k := Cursor.rest_past_one hclose
  have hline (d : Cursor) (ch : Char) (hm : ch ∈ [a, b]) : (d.past [ch]).line = d.line :=
    Cursor.line_past (by simpa using isBreak_eq_false_of_isGap (h.head ch hm).1)
  have hinside : (bracket (c.past [a]) (ts ++ [.opening form]) indent outer
      (possibleKey c ts indent allowed)).advance =
      some (bracket (c.past [a]) (ts ++ [.opening form]) indent outer
        (possibleKey c ts indent allowed)) := by
    refine advance_bracket ?_ (refreshKey_possibleKey (hline _ a (by simp)) ?_)
    · rw [hclose]
      rintro x ⟨⟩
      exact h.head b (by simp)
    · rw [Cursor.index_past]
      exact Nat.add_le_add_left (by simp [keyReach]) _
  have hlast : Leads (block ((c.past [a]).past [b]) (ts ++ [.opening form] ++ [.closing form])
      indent outer (possibleKey c ts indent allowed) false)
      ((block (c.past (a :: b :: fold m)) (ts ++ [.opening form, .closing form]) indent outer none
        true).unwind m) := by
    have hstale : IsStale (possibleKey c ts indent allowed)
        (((c.past [a]).past [b]).line + 1) := by
      refine isStale_possibleKey hcolumn ?_
      rw [hline _ b (by simp), hline _ a (by simp)]
      exact Nat.lt_succ_self _
    refine ⟨_, advance_fold hbehind hk.head hstale, ?_⟩
    rw [List.append_assoc]
    exact .refl
  have hcloses := hlast.behind (w := [b]) hclose (readToken_closing h hclose) rfl (by simp)
  exact Leads.behind (w := [a]) ⟨_, hinside, hcloses⟩ hr (readToken_opening h hr) rfl (by simp)

/-- Behind an indicator or a colon an empty collection is two tokens, and the next begins on a
new line. -/
theorem leads_brackets (h : IsBrackets form a b) (hr : c.rest = ' ' :: a :: b :: (fold m ++ k))
    (hk : NextLine m k) (hcolumn : indent ≤ c.column) :
    (block c ts indent outer none allowed).Leads
      ((block (c.past (' ' :: a :: b :: fold m)) (ts ++ [.opening form, .closing form]) indent
        outer none true).unwind m) := by
  have hnext : (c.past [' ']).column = c.column + 1 := Cursor.column_past_one hr rfl (by decide)
  have hat : AtToken (a :: b :: (fold m ++ k)) := by
    rintro x ⟨⟩
    exact h.head a (by simp)
  exact ⟨_, advance_spaces (n := 1) hr hat rfl hcolumn,
    steps_brackets h (Cursor.rest_past_one hr) hk (by
      change indent < ((c.past [' ']).column : Int)
      omega)⟩

end Brackets

end Lexing

end TaggedGrammar.Yaml
