import TaggedGrammar.Proofs.Yaml.Layout

/-!
# The tokens of written data

Data of texts are written as characters that are read as their tokens, unless a key is too long
for the line of its colon: there the reading stops. The induction follows the four writers of
values, items and entries.

## Main statements

* `keepsKey_of_length_le`: keys of moderate length are read back.
* `Lexing.reads_writeInline`, `Lexing.reads_writeValue`, `Lexing.lines_writeItems`,
  `Lexing.lines_writeEntries`: one for each writer.
* `tokens_writeList`, `exists_fault_mem_tokens`: the tokens of a written document.

## Implementation notes

The column at which a collection begins bounds the lines that are folded in it, which is why
`HasRoom` counts columns. Numbers, truth values and the absent value have none: no cognate is
described by them.
-/

namespace TaggedGrammar

namespace Yaml

/-! ### The tokens of data -/

/-- The tokens of a collection with its parts. In block form those that begin and end it may be
missing. -/
def collectionTokens (loose : Bool) (form empty : Form) (parts : List Token) : List Token :=
  if parts.isEmpty then [.opening empty, .closing empty]
  else if loose then parts
  else .opening form :: parts ++ [.blockEnd]

mutual

/-- The tokens of a value. Behind a key on the line of its colon nothing tells where a list
begins and ends. -/
def nodeTokens (loose : Bool) : Datum → List Token
  | .list ds => collectionTokens loose .blockSequence .flowSequence (itemTokens ds)
  | .mapping es => collectionTokens false .blockMapping .flowMapping (entryTokens es)
  | .text s => [.scalar (recalled false s)]
  | d => [.scalar (String.ofList (plainScalarChars d))]

/-- The tokens of the items of a list. -/
def itemTokens : List Datum → List Token
  | [] => []
  | d :: ds => .mark .entry :: nodeTokens false d ++ itemTokens ds

/-- The tokens of the entries of a mapping. -/
def entryTokens : List (String × Datum) → List Token
  | [] => []
  | (k, d) :: es =>
    .mark .key :: .scalar (recalled (isSimpleKey k.toList) k) :: .mark .value ::
      nodeTokens (isSimpleKey k.toList) d ++ entryTokens es

end

/-! ### Keys -/

/-- On the line of its colon a key begins near enough to it. -/
def ReachesColon (cs : List Char) : Prop :=
  isSimpleKey cs = true → (writeKey cs).length ≤ Lexing.keyReach

/-- A key is read back: the style in which it is written keeps it, and its colon is in reach. -/
def KeepsKey (cs : List Char) : Prop := KeepsText (isSimpleKey cs) cs ∧ ReachesColon cs

theorem length_writeKey_le {cs : List Char} (h : ∀ ch ∈ cs, isTextBreak ch = false) :
    (writeKey cs).length ≤ 10 * cs.length + 2 := by
  unfold writeKey writeScalar
  split
  · have hplain := @length_writePlain_le 0 0 none cs
    omega
  · have hsingle := @length_writeSingle_le 0 (0 + 1) none cs h
    simp only [List.length_cons, List.length_append, List.length_nil]
    omega
  · have hdouble := @length_writeDouble_le true false 0 (0 + 1) cs
    simp only [List.length_cons, List.length_append, List.length_nil]
    omega

/-- A key of moderate length is read back, whatever escapes it needs. -/
theorem keepsKey_of_length_le {cs : List Char} (hn : '\u0085' ∉ cs) (h : cs.length ≤ 102) :
    KeepsKey cs := by
  refine ⟨fun _ => hn, fun hsimple => ?_⟩
  have hlength := length_writeKey_le (Lexing.isTextBreak_of_isSimpleKey hsimple)
  simp only [Lexing.keyReach]
  omega

mutual

/-- Every key in a datum reaches its colon. -/
def Reachable : Datum → Prop
  | .list ds => ReachableItems ds
  | .mapping es => ReachableEntries es
  | _ => True

@[inherit_doc Reachable]
def ReachableItems : List Datum → Prop
  | [] => True
  | d :: ds => Reachable d ∧ ReachableItems ds

@[inherit_doc Reachable]
def ReachableEntries : List (String × Datum) → Prop
  | [] => True
  | (k, d) :: es => ReachesColon k.toList ∧ Reachable d ∧ ReachableEntries es

end

theorem reachableItems_iff {ds : List Datum} : ReachableItems ds ↔ ∀ d ∈ ds, Reachable d := by
  induction ds with
  | nil => simp [ReachableItems]
  | cons d ds ih => simp [ReachableItems, ih]

theorem reachableEntries_iff {es : List (String × Datum)} :
    ReachableEntries es ↔ ∀ e ∈ es, ReachesColon e.1.toList ∧ Reachable e.2 := by
  induction es with
  | nil => simp [ReachableEntries]
  | cons e es ih => simp [ReachableEntries, ih, and_assoc]

/-! ### Room on the lines -/

mutual

/-- A value in a collection at column `i` is made of texts, which have room on their lines. -/
def HasRoom (loose : Bool) (i : Nat) : Datum → Prop
  | .list ds => HasRoomItems (if loose then i else i + indentStep) ds
  | .mapping es => HasRoomEntries (i + indentStep) es
  | .text _ => i + indentStep < lineWidth
  | _ => False

/-- The same for items of a list at column `i`. -/
def HasRoomItems (i : Nat) : List Datum → Prop
  | [] => True
  | d :: ds => HasRoom false i d ∧ HasRoomItems i ds

/-- The same for entries of a mapping at column `i`, whose keys may stand on lines of their own. -/
def HasRoomEntries (i : Nat) : List (String × Datum) → Prop
  | [] => i + indentStep < lineWidth
  | (k, d) :: es => HasRoom (isSimpleKey k.toList) i d ∧ HasRoomEntries i es

end

section HasRoom

variable {i : Nat}

theorem hasRoomItems_iff {ds : List Datum} :
    HasRoomItems i ds ↔ ∀ d ∈ ds, HasRoom false i d := by
  induction ds with
  | nil => simp [HasRoomItems]
  | cons d ds ih => simp [HasRoomItems, ih]

theorem hasRoomEntries_iff {es : List (String × Datum)} :
    HasRoomEntries i es ↔
      i + indentStep < lineWidth ∧ ∀ e ∈ es, HasRoom (isSimpleKey e.1.toList) i e.2 := by
  induction es with
  | nil => simp [HasRoomEntries]
  | cons e es ih =>
      simp only [HasRoomEntries, ih, List.forall_mem_cons]
      exact and_left_comm

end HasRoom

namespace Lexing

section Parts

variable {p q : Prop} {form : Form} {i : Nat} {v : List Char} {ws : List (List Char)}
variable {ks ts : List Token}

theorem Lines.cons (h : Lines p form i v ks) (hnil : ws = [] → ts = [] ∧ q)
    (hrest : ws ≠ [] → Lines q form i ((fold i).intercalate ws) ts) :
    Lines (p ∧ q) form i ((fold i).intercalate (v :: ws)) (ks ++ ts) := by
  cases ws with
  | nil =>
      obtain ⟨rfl, hq⟩ := hnil rfl
      simpa [hq] using h
  | cons w ws =>
      rw [List.intercalate_cons_cons]
      simpa using h.append (hrest (List.cons_ne_nil w ws))

theorem flatMap_fold (i : Nat) (h : ws ≠ []) :
    ws.flatMap (fold i ++ ·) = fold i ++ (fold i).intercalate ws := by
  induction ws with
  | nil => exact absurd rfl h
  | cons w ws ih =>
      cases ws with
      | nil => simp
      | cons v ws =>
          rw [List.flatMap_cons, ih (List.cons_ne_nil v ws), List.intercalate_cons_cons]
          simp

variable {empty : Form} {a b : Char}

/-- A collection behind an indicator begins on its line. -/
theorem Reads.inlineBlock {none : String} (hempty : none.toList = [a, b])
    (hbrackets : IsBrackets empty a b) (hnil : ws = [] ↔ ts = []) (hp : ws = [] → p)
    (h : ws ≠ [] → Lines p form (i + 2) ((fold (i + 2)).intercalate ws) ts) :
    Reads p i true (' ' :: inlineBlock (i + 2) none ws) (collectionTokens false form empty ts) := by
  unfold Yaml.inlineBlock collectionTokens
  by_cases hws : ws = []
  · rw [hnil.mp hws, hws]
    simpa [hempty, hp hws] using brackets hbrackets
  · have hts : ts ≠ [] := mt hnil.mpr hws
    simpa [hws, hts] using onLine (h hws)

/-- A collection behind a key on the line of its colon begins on the next line. -/
theorem Reads.block {none : String} {loose : Bool} {j : Nat} (hempty : none.toList = [a, b])
    (hbrackets : IsBrackets empty a b) (hnil : ws = [] ↔ ts = []) (hp : ws = [] → p)
    (h : ws ≠ [] → Lines p form j ((fold j).intercalate ws) ts)
    (hloose : if loose then i = j ∧ form = .blockSequence else i < j) :
    Reads p i false (Yaml.block j none ws) (collectionTokens loose form empty ts) := by
  unfold Yaml.block collectionTokens
  by_cases hws : ws = []
  · rw [hnil.mp hws, hws]
    simpa [hempty, hp hws] using brackets hbrackets
  · have hts : ts ≠ [] := mt hnil.mpr hws
    rw [flatMap_fold j hws]
    cases loose with
    | false => simpa [hws, hts] using below (h hws) hloose
    | true =>
        obtain ⟨rfl, rfl⟩ := hloose
        simpa [hws, hts] using Reads.loose (h hws)

end Parts

/-! ### Written data are read as their tokens -/

theorem writeItems_eq_nil_iff (i : Nat) (ds : List Datum) :
    writeItems i ds = [] ↔ itemTokens ds = [] := by
  cases ds <;> simp [writeItems, itemTokens]

theorem writeEntries_eq_nil_iff (i : Nat) (es : List (String × Datum)) :
    writeEntries i es = [] ↔ entryTokens es = [] := by
  cases es <;> simp [writeEntries, entryTokens]

theorem ne_nil_of_writeItems {i : Nat} {ds : List Datum} (h : writeItems i ds ≠ []) : ds ≠ [] := by
  rintro rfl
  exact h rfl

theorem ne_nil_of_writeEntries {i : Nat} {es : List (String × Datum)}
    (h : writeEntries i es ≠ []) : es ≠ [] := by
  rintro rfl
  exact h rfl

theorem reachable_of_writeItems {i : Nat} {ds : List Datum} (h : writeItems i ds = []) :
    ReachableItems ds := by
  cases ds with
  | nil => exact trivial
  | cons d ds => simp [writeItems] at h

theorem reachable_of_writeEntries {i : Nat} {es : List (String × Datum)}
    (h : writeEntries i es = []) : ReachableEntries es := by
  cases es with
  | nil => exact trivial
  | cons e es => simp [writeEntries] at h

/-- An entry is read as its key and its value, wherever the key stands. -/
theorem lines_entry {p : Prop} {i : Nat} {k : String} {d : Datum} (hi : 0 < i)
    (hwidth : i + indentStep < lineWidth)
    (hinline : isSimpleKey k.toList = false →
      Reads p i true (writeInline (i + indentStep) d) (nodeTokens false d))
    (hvalue : isSimpleKey k.toList = true →
      Reads p i false (writeValue i (writeKey k.toList).length d) (nodeTokens true d)) :
    Lines (ReachesColon k.toList ∧ p) .blockMapping i
      (if isSimpleKey k.toList then
        writeKey k.toList ++ ':' :: writeValue i (writeKey k.toList).length d
      else
        '?' :: ' ' :: writeText (i + indentStep) (i + indentStep) k ++ fold i ++
          ':' :: writeInline (i + indentStep) d)
      (.mark .key :: .scalar (recalled (isSimpleKey k.toList) k) :: .mark .value ::
        nodeTokens (isSimpleKey k.toList) d) := by
  unfold ReachesColon
  cases hsimple : isSimpleKey k.toList with
  | true => simpa [recalled] using Lines.entry hsimple hi (hvalue hsimple)
  | false =>
      have htext : Reads True i true (' ' :: writeText (i + indentStep) (i + indentStep) k)
          [.scalar (recalled false k)] := .text (Nat.lt_add_of_pos_right (by decide)) hwidth
      simpa using Lines.longEntry htext (hinline hsimple)

mutual

theorem reads_writeInline (i : Nat) (d : Datum) (h : HasRoom false i d) :
    Reads (Reachable d) i true (writeInline (i + indentStep) d) (nodeTokens false d) := by
  match d with
  | .text s => exact .text (Nat.lt_add_of_pos_right (by decide)) h
  | .list ds =>
      exact .inlineBlock rfl isBrackets_sequence (writeItems_eq_nil_iff _ ds)
        reachable_of_writeItems fun hws =>
          lines_writeItems (i + indentStep) ds h (ne_nil_of_writeItems hws)
  | .mapping es =>
      exact .inlineBlock rfl isBrackets_mapping (writeEntries_eq_nil_iff _ es)
        reachable_of_writeEntries fun hws =>
          lines_writeEntries (i + indentStep) es (Nat.succ_pos _) h (ne_nil_of_writeEntries hws)

theorem reads_writeValue (i keyLength : Nat) (d : Datum) (h : HasRoom true i d) :
    Reads (Reachable d) i false (writeValue i keyLength d) (nodeTokens true d) := by
  match d with
  | .text s => exact .text (Nat.lt_add_of_pos_right (by decide)) h
  | .list ds =>
      refine .block rfl isBrackets_sequence (writeItems_eq_nil_iff i ds) reachable_of_writeItems ?_
        ⟨rfl, rfl⟩
      exact fun hws => lines_writeItems i ds h (ne_nil_of_writeItems hws)
  | .mapping es =>
      refine .block rfl isBrackets_mapping (writeEntries_eq_nil_iff _ es)
        reachable_of_writeEntries ?_ (Nat.lt_add_of_pos_right (by decide))
      exact fun hws =>
        lines_writeEntries (i + indentStep) es (Nat.succ_pos _) h (ne_nil_of_writeEntries hws)

theorem lines_writeItems (i : Nat) (ds : List Datum) (h : HasRoomItems i ds) (hne : ds ≠ []) :
    Lines (ReachableItems ds) .blockSequence i ((fold i).intercalate (writeItems i ds))
      (itemTokens ds) := by
  match ds with
  | d :: ds =>
      refine Lines.cons (.item (reads_writeInline i d h.1)) (fun hws => ?_) fun hws => ?_
      · exact ⟨(writeItems_eq_nil_iff i ds).mp hws, reachable_of_writeItems hws⟩
      · exact lines_writeItems i ds h.2 (ne_nil_of_writeItems hws)

theorem lines_writeEntries (i : Nat) (es : List (String × Datum)) (hi : 0 < i)
    (h : HasRoomEntries i es) (hne : es ≠ []) :
    Lines (ReachableEntries es) .blockMapping i ((fold i).intercalate (writeEntries i es))
      (entryTokens es) := by
  match es with
  | (k, d) :: es =>
      obtain ⟨hd, hes⟩ := h
      have hfirst := lines_entry hi (hasRoomEntries_iff.mp hes).1
        (fun hsimple => reads_writeInline i d (hsimple ▸ hd))
        (fun hsimple => reads_writeValue i (writeKey k.toList).length d (hsimple ▸ hd))
      refine .congr and_assoc (hfirst.cons (fun hws => ?_) fun hws => ?_)
      · exact ⟨(writeEntries_eq_nil_iff i es).mp hws, reachable_of_writeEntries hws⟩
      · exact lines_writeEntries i es hi hes (ne_nil_of_writeEntries hws)

end

/-! ### The tokens of a written document -/

/-- A text begins with its first token. -/
theorem advance_ofChars {cs : List Char} (hat : AtToken cs) :
    (ofChars cs).advance = some (block (Cursor.ofChars cs) [] (-1) [] none true) := by
  have hhere : (block (Cursor.ofChars cs) [] (-1) [] none true).advance =
      some (block (Cursor.ofChars cs) [] (-1) [] none true) := by
    rw [advance_here hat (by simp [IsStale]), unwind_of_le (by omega)]
  exact hhere

/-- The tokens of a text that has been read to its end, where the open collections are closed. -/
theorem run_ofChars {cs : List Char} {ts ts' : List Token} {indent : Int} {outer : List Int}
    (h : (ofChars cs).Leads (block ((Cursor.ofChars cs).past cs) ts indent outer none true))
    (hend : ∀ c : Cursor, (block c ts indent outer none true).unwind (-1) =
      block c ts' (-1) [] none true) : (ofChars cs).run = ts' := by
  have hrest : ((Cursor.ofChars cs).past cs).rest = [] := by
    have hall : (Cursor.ofChars cs).rest = cs ++ [] := (List.append_nil cs).symm
    exact Cursor.rest_past hall
  have hfinish : (block ((Cursor.ofChars cs).past cs) ts indent outer none true).finish =
      some (block ((Cursor.ofChars cs).past cs) ts' (-1) [] none false) := by
    rw [finish, hend]
    rfl
  rw [run_of_leads h hrest hfinish]
  exact List.reverse_reverse ts'

theorem nextLine_nil : NextLine 0 [] := ⟨by simp, rfl⟩

/-- The lines of a list are a text. -/
theorem attains_lines {p : Prop} {w : List Char} {ts : List Token}
    (h : Lines p .blockSequence 0 w ts) :
    Attains Leads p (ofChars (w ++ fold 0))
      (block ((Cursor.ofChars (w ++ fold 0)).past (w ++ fold 0)) (.opening .blockSequence :: ts) 0
        [-1] none true) := by
  have hopens : Opens .blockSequence 0 [] (-1) [] [.opening .blockSequence] [-1] :=
    .deeper [] (by decide)
  have hrest : (Cursor.ofChars (w ++ fold 0)).rest = w ++ (fold 0 ++ []) := by simp [Cursor.ofChars]
  have hsteps := h.steps hrest nextLine_nil (Nat.le_refl _) rfl hopens
  rw [unwind_of_le (Int.le_refl _)] at hsteps
  exact hsteps.advance (advance_ofChars (h.front _).head)

/-- The tokens of the lines of a list. -/
theorem run_of_lines {p : Prop} {w : List Char} {ts : List Token}
    (h : Lines p .blockSequence 0 w ts) (hp : p) :
    (ofChars (w ++ fold 0)).run = .opening .blockSequence :: ts ++ [.blockEnd] := by
  refine run_ofChars ((attains_lines h).reaches hp) fun c => ?_
  rw [unwind_of_lt (by decide), unwind_of_le (Int.le_refl _)]

/-- The tokens of the brackets of an empty collection. -/
theorem run_of_brackets {form : Form} {a b : Char} (h : IsBrackets form a b) :
    (ofChars (a :: b :: fold 0)).run = [.opening form, .closing form] := by
  have hrest : (Cursor.ofChars (a :: b :: fold 0)).rest = a :: b :: (fold 0 ++ []) := by
    simp [Cursor.ofChars]
  have hsteps : Relation.ReflTransGen Step
      (block (Cursor.ofChars (a :: b :: fold 0)) [] (-1) [] none true)
      ((block ((Cursor.ofChars (a :: b :: fold 0)).past (a :: b :: fold 0))
        ([] ++ [.opening form, .closing form]) (-1) [] none true).unwind (0 : Nat)) :=
    steps_brackets h hrest nextLine_nil (Int.negSucc_lt_zero 0)
  rw [unwind_of_le (by decide)] at hsteps
  have hat : AtToken (a :: b :: fold 0) := by
    rintro x ⟨⟩
    exact h.head a (by simp)
  exact run_ofChars ⟨_, advance_ofChars hat, hsteps⟩ fun c => unwind_of_le (Int.le_refl _)

end Lexing

section Documents

variable {ds : List Datum}

/-- A document is written in characters that a document may hold, without carriage returns. -/
theorem isAllowed_of_mem_writeList (h : HasRoomItems 0 ds) :
    ∀ ch ∈ (writeList ds).toList, isAllowed ch = true ∧ ch ≠ '\r' := by
  unfold writeList
  rw [String.toList_ofList]
  refine List.forall_mem_append.mpr ⟨?_, by simp [isAllowed]⟩
  cases ds with
  | nil => exact Lexing.isBrackets_sequence.chars
  | cons d ds => exact (Lexing.lines_writeItems 0 (d :: ds) h (List.cons_ne_nil d ds)).chars

theorem tokens_eq_run (h : HasRoomItems 0 ds) :
    tokens (writeList ds) = (Lexing.ofChars (writeList ds).toList).run := by
  have hallowed : (writeList ds).toList.all isAllowed = true :=
    List.all_eq_true.mpr fun ch hm => (isAllowed_of_mem_writeList h ch hm).1
  exact if_pos hallowed

/-- The tokens of a written list. -/
theorem tokens_writeList (h : HasRoomItems 0 ds) (hreach : ReachableItems ds) :
    tokens (writeList ds) = nodeTokens false (.list ds) := by
  rw [tokens_eq_run h, writeList, String.toList_ofList]
  cases ds with
  | nil => exact Lexing.run_of_brackets Lexing.isBrackets_sequence
  | cons d ds =>
      exact Lexing.run_of_lines (Lexing.lines_writeItems 0 (d :: ds) h (List.cons_ne_nil d ds))
        hreach

/-- A list with a key that does not reach its colon is written as a text with a fault. -/
theorem exists_fault_mem_tokens (h : HasRoomItems 0 ds) (hreach : ¬ReachableItems ds) :
    ∃ e, Token.fault e ∈ tokens (writeList ds) := by
  rw [tokens_eq_run h, writeList, String.toList_ofList]
  cases ds with
  | nil => exact absurd trivial hreach
  | cons d ds =>
      have hlines := Lexing.lines_writeItems 0 (d :: ds) h (List.cons_ne_nil d ds)
      obtain ⟨t, hleads, hstuck⟩ := (Lexing.attains_lines hlines).stops hreach
      exact Lexing.exists_fault_mem_run hleads hstuck

end Documents

end Yaml

end TaggedGrammar
