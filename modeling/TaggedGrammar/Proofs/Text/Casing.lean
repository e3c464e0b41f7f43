import Mathlib.Data.List.SplitBy
import TaggedGrammar.Proofs.Text.Name
import TaggedGrammar.Text.Casing

/-!
# Capitals at the heads of words

A text is a row of longest stretches, of blanks and of other characters in turns. Those without
blanks are its words. Putting the heads of words into upper case changes every word by itself and
no blank, also where the upper case of a head has several characters, and to do it again changes
nothing any more.

## Main statements

* `exists_upperChar`: the upper case of a character that is no blank.
* `stretches_flatten`: stretches in turns are those of the text that they make.
* `Alternates.titlecase_flatten`: what is done to a text is done to its stretches.
* `titlecase_by_words`: texts with blanks between them, single words, stretches, and doing it again.

## Implementation notes

That no upper case has an upper case of its own is read off the table of upper cases, which has
about 1500 code points. They are compared all at once, as binary digits of numbers.
-/

namespace TaggedGrammar.Text

/-! ### Sets of numbers as digits -/

/-- The number whose binary digits are set at the places in a list. -/
def bits (ns : List Nat) : Nat := ns.foldr (fun n m => 1 <<< n ||| m) 0

theorem testBit_bits {ns : List Nat} {n : Nat} : (bits ns).testBit n = true ↔ n ∈ ns := by
  induction ns with
  | nil => simp [bits]
  | cons m ns ih =>
      rw [bits, List.foldr_cons, Nat.testBit_or, Nat.one_shiftLeft, Nat.testBit_two_pow,
        Bool.or_eq_true, decide_eq_true_eq, List.mem_cons, eq_comm]
      exact or_congr_right ih

/-- Lists have no number in common if their digits have none. -/
theorem not_mem_of_bits {ms ns : List Nat} (h : bits ms &&& bits ns = 0) {n : Nat}
    (hm : n ∈ ms) : n ∉ ns := by
  intro hn
  have hboth : (bits ms &&& bits ns).testBit n = true := by
    rw [Nat.testBit_and, testBit_bits.mpr hm, testBit_bits.mpr hn]
    rfl
  rw [h, Nat.zero_testBit] at hboth
  cases hboth

/-! ### The table of upper cases -/

/-- The code points of a run. -/
def CaseRun.points (r : CaseRun) : List Nat :=
  List.range' r.first ((r.last - r.first) / r.step + 1) r.step

/-- What the code points of a run are mapped to. -/
def CaseRun.images (r : CaseRun) : List Nat :=
  r.points.map fun (n : Nat) => ((n : Int) + r.offset).toNat

theorem CaseRun.mem_points_of_has {r : CaseRun} {n : Nat} (h : r.has n = true) : n ∈ r.points := by
  simp only [has, Bool.and_eq_true, decide_eq_true_eq, beq_iff_eq] at h
  obtain ⟨⟨hfirst, hlast⟩, hstep⟩ := h
  refine List.mem_range'.mpr ⟨(n - r.first) / r.step, ?_, ?_⟩
  · exact Nat.lt_succ_of_le (Nat.div_le_div_right (Nat.sub_le_sub_right hlast _))
  · have hdivides : r.step * ((n - r.first) / r.step) = n - r.first :=
      Nat.mul_div_cancel' (Nat.dvd_of_mod_eq_zero hstep)
    rw [hdivides]
    omega

/-- The code points whose upper case is in the table. -/
def mappedPoints : List Nat := upperExpansions.map Prod.fst ++ upperRuns.flatMap CaseRun.points

/-- The code points at the head of an upper case in the table. -/
def headPoints : List Nat :=
  upperExpansions.filterMap (·.2.head?) ++ upperRuns.flatMap CaseRun.images

/-- The code points of blanks. -/
def blankPoints : List Nat := blankRanges.flatMap fun r => List.range' r.1 (r.2 + 1 - r.1)

theorem not_mem_of_mem_headPoints {n : Nat} (h : n ∈ headPoints) :
    n ∉ mappedPoints ∧ n ∉ blankPoints := by
  have hapart : bits headPoints &&& bits (mappedPoints ++ blankPoints) = 0 := by decide +kernel
  have hout := not_mem_of_bits hapart h
  rwa [List.mem_append, not_or] at hout

theorem isValidChar_of_mem_headPoints : ∀ n ∈ headPoints, n.isValidChar := by decide +kernel

theorem expansion_cases : ∀ e ∈ upperExpansions,
    e.2 ≠ [] ∧ ∀ n ∈ e.2, n.isValidChar ∧ blankRanges.covers n = false := by decide +kernel

theorem mem_blankPoints_of_isBlank {c : Char} (h : isBlank c = true) : c.toNat ∈ blankPoints := by
  obtain ⟨r, hr, hfirst, hlast⟩ := Ranges.exists_of_covers h
  exact List.mem_flatMap.mpr ⟨r, hr, List.mem_range'_1.mpr ⟨hfirst, by omega⟩⟩

/-! ### Upper case of a character -/

theorem upperChar_of_not_mem {c : Char} (h : c.toNat ∉ mappedPoints) : upperChar c = [c] := by
  rw [mappedPoints, List.mem_append, not_or] at h
  have hlookup : upperExpansions.lookup c.toNat = none := by
    rw [List.lookup_eq_none_iff]
    intro e he
    simpa using fun hc : c.toNat = e.1 => h.1 (hc ▸ List.mem_map_of_mem he)
  have hruns : upperRuns.find? (·.has c.toNat) = none := by
    rw [List.find?_eq_none]
    exact fun r hr hhas => h.2 (List.mem_flatMap.mpr ⟨r, hr, r.mem_points_of_has hhas⟩)
  rw [upperChar, mapCase, hlookup]
  simp only [mapByRuns, hruns, Char.ofNat_toNat]

theorem toNat_ofNat {n : Nat} (h : n.isValidChar) : (Char.ofNat n).toNat = n := by
  rw [Char.ofNat, dif_pos h]
  rfl

theorem upperChar_of_mem_headPoints {n : Nat} (h : n ∈ headPoints) :
    upperChar (Char.ofNat n) = [Char.ofNat n] ∧ isBlank (Char.ofNat n) = false := by
  obtain ⟨hmapped, hblank⟩ := not_mem_of_mem_headPoints h
  have hpoint := toNat_ofNat (isValidChar_of_mem_headPoints n h)
  constructor
  · apply upperChar_of_not_mem
    rwa [hpoint]
  · apply Bool.eq_false_iff.mpr
    exact fun hc => hblank (hpoint ▸ mem_blankPoints_of_isBlank hc)

/-- The upper case of a character that is no blank has a head, which is its own upper case, and no
blanks in it. -/
theorem exists_upperChar {c : Char} (hc : isBlank c = false) :
    ∃ d ds, upperChar c = d :: ds ∧ upperChar d = [d] ∧ isBlank d = false ∧
      ∀ e ∈ ds, isBlank e = false := by
  cases hlookup : upperExpansions.lookup c.toNat with
  | some image =>
      obtain ⟨before, after, hsplit, -⟩ := List.lookup_eq_some_iff.mp hlookup
      have hentry : (c.toNat, image) ∈ upperExpansions := by rw [hsplit]; simp
      obtain ⟨hne, himage⟩ := expansion_cases _ hentry
      obtain ⟨n, ns, rfl⟩ := List.exists_cons_of_ne_nil hne
      have hn : n ∈ headPoints :=
        List.mem_append_left _ (List.mem_filterMap.mpr ⟨_, hentry, rfl⟩)
      obtain ⟨hupper, hblank⟩ := upperChar_of_mem_headPoints hn
      refine ⟨Char.ofNat n, ns.map Char.ofNat, ?_, hupper, hblank, ?_⟩
      · rw [upperChar, mapCase, hlookup]
        rfl
      · intro e he
        obtain ⟨m, hm, rfl⟩ := List.mem_map.mp he
        obtain ⟨hvalid, hcovers⟩ := himage m (List.mem_cons_of_mem n hm)
        rwa [isBlank, toNat_ofNat hvalid]
  | none =>
      have himage : upperChar c = [Char.ofNat (mapByRuns upperRuns c.toNat)] := by
        rw [upperChar, mapCase, hlookup]
      cases hrun : upperRuns.find? (·.has c.toNat) with
      | some r =>
          have hn : ((c.toNat : Int) + r.offset).toNat ∈ headPoints := by
            apply List.mem_append_right
            apply List.mem_flatMap.mpr
            have hhas := List.find?_some hrun
            have hpoint := r.mem_points_of_has hhas
            exact ⟨r, List.mem_of_find?_eq_some hrun, List.mem_map_of_mem hpoint⟩
          obtain ⟨hupper, hblank⟩ := upperChar_of_mem_headPoints hn
          simp only [mapByRuns, hrun] at himage
          exact ⟨_, [], himage, hupper, hblank, nofun⟩
      | none =>
          simp only [mapByRuns, hrun, Char.ofNat_toNat] at himage
          exact ⟨c, [], himage, himage, hc, nofun⟩

/-! ### Blanks and words in turns -/

theorem titlecase_cons_blank {c : Char} (hc : isBlank c = true) (atHead : Bool) (cs : List Char) :
    titlecaseFrom atHead (c :: cs) = c :: titlecase cs := by
  rw [titlecaseFrom, if_pos hc]
  rfl

theorem titlecase_blanks {w : List Char} (hw : ∀ c ∈ w, isBlank c = true) (cs : List Char) :
    titlecase (w ++ cs) = w ++ titlecase cs := by
  induction w with
  | nil => rfl
  | cons c w ih =>
      obtain ⟨hc, hw⟩ := List.forall_mem_cons.mp hw
      exact (titlecase_cons_blank hc true (w ++ cs)).trans (congrArg (c :: ·) (ih hw))

/-- Behind blanks a word begins, whatever stood before them. -/
theorem titlecaseFrom_blanks {w : List Char} (hne : w ≠ []) (hw : ∀ c ∈ w, isBlank c = true)
    (atHead : Bool) (cs : List Char) : titlecaseFrom atHead (w ++ cs) = w ++ titlecase cs := by
  obtain ⟨c, w, rfl⟩ := List.exists_cons_of_ne_nil hne
  obtain ⟨hc, hw⟩ := List.forall_mem_cons.mp hw
  calc titlecaseFrom atHead (c :: (w ++ cs))
      = c :: titlecase (w ++ cs) := titlecase_cons_blank hc atHead (w ++ cs)
    _ = c :: (w ++ titlecase cs) := by rw [titlecase_blanks hw]

theorem titlecaseFrom_append {w : List Char} (hne : w ≠ []) (hw : ∀ c ∈ w, isBlank c = true)
    (atHead : Bool) (a b : List Char) :
    titlecaseFrom atHead (a ++ (w ++ b)) = titlecaseFrom atHead a ++ (w ++ titlecase b) := by
  induction a generalizing atHead with
  | nil => exact titlecaseFrom_blanks hne hw atHead b
  | cons c a ih =>
      rw [List.cons_append, titlecaseFrom, titlecaseFrom, ih, ih]
      split
      · rfl
      · split
        · exact (List.append_assoc ..).symm
        · rfl

theorem titlecaseFrom_word {g : List Char} (hg : ∀ c ∈ g, isBlank c = false) (cs : List Char) :
    titlecaseFrom false (g ++ cs) = g ++ titlecaseFrom false cs := by
  induction g with
  | nil => rfl
  | cons c g ih =>
      obtain ⟨hc, hg⟩ := List.forall_mem_cons.mp hg
      rw [List.cons_append, titlecaseFrom, hc, ih hg]
      rfl

theorem titlecase_word {g : List Char} (hne : g ≠ []) (hg : ∀ c ∈ g, isBlank c = false)
    (cs : List Char) : titlecase (g ++ cs) = capitalize g ++ titlecaseFrom false cs := by
  obtain ⟨c, g, rfl⟩ := List.exists_cons_of_ne_nil hne
  obtain ⟨hc, hg⟩ := List.forall_mem_cons.mp hg
  rw [titlecase, List.cons_append, titlecaseFrom, hc, titlecaseFrom_word hg]
  exact (List.append_assoc ..).symm

/-- A text without blanks is one word. -/
theorem titlecase_eq_capitalize {s : List Char} (hs : ∀ c ∈ s, isBlank c = false) :
    titlecase s = capitalize s := by
  by_cases hne : s = []
  · rw [hne]
    rfl
  · calc titlecase s
        = titlecase (s ++ []) := by rw [List.append_nil]
      _ = capitalize s ++ titlecaseFrom false [] := titlecase_word hne hs []
      _ = capitalize s := List.append_nil _

theorem titlecaseFrom_of_head {cs : List Char} (h : ∀ c ∈ cs.head?, isBlank c = true)
    (atHead : Bool) : titlecaseFrom atHead cs = titlecase cs := by
  cases cs with
  | nil => rfl
  | cons c cs =>
      have hc : isBlank c = true := h c rfl
      rw [titlecase, titlecase_cons_blank hc, titlecase_cons_blank hc]

theorem capitalize_word {g : List Char} (hg : ∀ c ∈ g, isBlank c = false) :
    (∀ c ∈ capitalize g, isBlank c = false) ∧ capitalize (capitalize g) = capitalize g := by
  cases g with
  | nil => exact ⟨nofun, rfl⟩
  | cons c g =>
      obtain ⟨hc, hg⟩ := List.forall_mem_cons.mp hg
      obtain ⟨d, ds, himage, hupper, hd, hds⟩ := exists_upperChar hc
      have hcapital : capitalize (c :: g) = d :: (ds ++ g) := by
        rw [capitalize, himage]
        rfl
      rw [hcapital, List.forall_mem_cons, List.forall_mem_append, capitalize, hupper]
      exact ⟨⟨hd, hds, hg⟩, rfl⟩

theorem capitalize_ne_nil {g : List Char} (hne : g ≠ []) (hg : ∀ c ∈ g, isBlank c = false) :
    capitalize g ≠ [] := by
  obtain ⟨c, g, rfl⟩ := List.exists_cons_of_ne_nil hne
  obtain ⟨d, ds, himage, -⟩ := exists_upperChar (List.forall_mem_cons.mp hg).1
  rw [capitalize, himage]
  exact List.cons_ne_nil _ _

/-! ### Stretches -/

/-- The longest stretches of blanks and of other characters, in order. -/
def stretches (cs : List Char) : List (List Char) :=
  cs.splitBy fun c d => isBlank c == isBlank d

/-- Whether there are no blanks in a stretch. -/
def isWord (g : List Char) : Bool := g.all fun c => !isBlank c

/-- A word with its head in upper case, or blanks as they are. -/
def capitalizeWord (g : List Char) : List Char := if isWord g then capitalize g else g

/-- The words of a text. -/
def words (cs : List Char) : List (List Char) := (stretches cs).filter isWord

/-- The stretches of blanks in a text. -/
def gaps (cs : List Char) : List (List Char) := (stretches cs).filter fun g => !isWord g

/-- Stretches of blanks and of other characters in turns, of which the first is of blanks if
`blank` says so. -/
inductive Alternates : Bool → List (List Char) → Prop where
  | nil (blank : Bool) : Alternates blank []
  | cons {blank : Bool} {g : List Char} {rest : List (List Char)} (hne : g ≠ [])
      (hg : ∀ c ∈ g, isBlank c = blank) (h : Alternates (!blank) rest) :
      Alternates blank (g :: rest)

theorem isWord_iff {g : List Char} : isWord g = true ↔ ∀ c ∈ g, isBlank c = false := by
  simp [isWord]

theorem isWord_of_blanks {g : List Char} (hne : g ≠ []) (hg : ∀ c ∈ g, isBlank c = true) :
    isWord g = false := by
  obtain ⟨c, g, rfl⟩ := List.exists_cons_of_ne_nil hne
  simp [isWord, hg c List.mem_cons_self]

theorem isWord_capitalizeWord (g : List Char) : isWord (capitalizeWord g) = isWord g := by
  rw [capitalizeWord]
  split
  · rename_i hg
    rw [hg]
    exact isWord_iff.mpr (capitalize_word (isWord_iff.mp hg)).1
  · rfl

theorem capitalizeWord_capitalizeWord (g : List Char) :
    capitalizeWord (capitalizeWord g) = capitalizeWord g := by
  rw [capitalizeWord, isWord_capitalizeWord, capitalizeWord]
  split
  · rename_i hg
    exact (capitalize_word (isWord_iff.mp hg)).2
  · rfl

namespace Alternates

variable {blank : Bool} {gs : List (List Char)}

theorem head_flatten (h : Alternates blank gs) : ∀ c ∈ gs.flatten.head?, isBlank c = blank := by
  cases h with
  | nil => exact nofun
  | cons hne hg _ =>
      obtain ⟨d, g, rfl⟩ := List.exists_cons_of_ne_nil hne
      rintro c ⟨⟩
      exact hg d List.mem_cons_self

theorem map_capitalizeWord (h : Alternates blank gs) :
    Alternates blank (gs.map capitalizeWord) := by
  induction h with
  | nil blank => exact .nil blank
  | @cons blank g rest hne hg _ ih =>
      cases blank with
      | true =>
          have hsame : capitalizeWord g = g := by
            rw [capitalizeWord, isWord_of_blanks hne hg]
            rfl
          rw [List.map_cons, hsame]
          exact .cons hne hg ih
      | false =>
          have hcapital : capitalizeWord g = capitalize g := if_pos (isWord_iff.mpr hg)
          rw [List.map_cons, hcapital]
          exact .cons (capitalize_ne_nil hne hg) (capitalize_word hg).1 ih

theorem titlecase_flatten (h : Alternates blank gs) :
    titlecase gs.flatten = (gs.map capitalizeWord).flatten := by
  induction h with
  | nil => rfl
  | @cons blank g rest hne hg hrest ih =>
      rw [List.flatten_cons, List.map_cons, List.flatten_cons, ← ih, capitalizeWord]
      cases blank with
      | true =>
          rw [isWord_of_blanks hne hg]
          exact titlecase_blanks hg rest.flatten
      | false =>
          rw [isWord_iff.mpr hg, if_pos rfl, titlecase_word hne hg,
            titlecaseFrom_of_head hrest.head_flatten]

end Alternates

/-- Stretches in turns are those of the text that they make. -/
theorem stretches_flatten {blank : Bool} {gs : List (List Char)} (h : Alternates blank gs) :
    stretches gs.flatten = gs := by
  induction h with
  | nil => rfl
  | @cons blank g rest hne hg hrest ih =>
      have hchain : g.IsChain fun c d => (isBlank c == isBlank d) = true := by
        apply List.Pairwise.isChain
        apply List.pairwise_of_forall_mem_list
        intro c hc d hd
        rw [hg c hc, hg d hd, beq_self_eq_true]
      have hapart : ∀ c ∈ g.getLast?, ∀ d ∈ rest.flatten.head?,
          (isBlank c == isBlank d) = false := by
        intro c hc d hd
        rw [hg c (List.mem_of_getLast? hc), hrest.head_flatten d hd]
        cases blank <;> rfl
      rw [List.flatten_cons, stretches, List.splitBy_append hapart,
        List.splitBy_of_isChain hne hchain]
      exact congrArg (g :: ·) ih

theorem exists_alternates (s : List Char) :
    ∃ blank gs, Alternates blank gs ∧ gs.flatten = s := by
  induction s with
  | nil => exact ⟨true, [], .nil true, rfl⟩
  | cons c s ih =>
      obtain ⟨blank, gs, h, rfl⟩ := ih
      by_cases hc : isBlank c = blank
      · cases h with
        | nil =>
            exact ⟨blank, [[c]], .cons (List.cons_ne_nil c _) (by simpa using hc) (.nil _), rfl⟩
        | cons _ hg hrest =>
            have hlonger := Alternates.cons (List.cons_ne_nil c _)
              (List.forall_mem_cons.mpr ⟨hc, hg⟩) hrest
            exact ⟨blank, _, hlonger, rfl⟩
      · refine ⟨!blank, [c] :: gs, .cons (List.cons_ne_nil c _) ?_ ?_, rfl⟩
        · simpa using Bool.eq_not_of_ne hc
        · rwa [Bool.not_not]

/-! ### Texts -/

theorem stretches_titlecase (s : List Char) :
    stretches (titlecase s) = (stretches s).map capitalizeWord := by
  obtain ⟨blank, gs, h, rfl⟩ := exists_alternates s
  rw [h.titlecase_flatten, stretches_flatten h.map_capitalizeWord, stretches_flatten h]

theorem words_titlecase (s : List Char) : words (titlecase s) = (words s).map capitalize := by
  have hword : isWord ∘ capitalizeWord = isWord := funext isWord_capitalizeWord
  rw [words, stretches_titlecase, List.filter_map, hword]
  exact List.map_congr_left fun g hg => if_pos (List.mem_filter.mp hg).2

theorem gaps_titlecase (s : List Char) : gaps (titlecase s) = gaps s := by
  have hgap : (fun g => !isWord g) ∘ capitalizeWord = fun g => !isWord g :=
    funext fun g => congrArg not (isWord_capitalizeWord g)
  calc gaps (titlecase s)
      = (gaps s).map capitalizeWord := by
        rw [gaps, stretches_titlecase, List.filter_map, hgap, gaps]
    _ = (gaps s).map id := by
        apply List.map_congr_left
        intro g hg
        have hword : isWord g = false := by simpa using (List.mem_filter.mp hg).2
        rw [capitalizeWord, hword]
        rfl
    _ = gaps s := List.map_id _

theorem titlecase_titlecase (s : List Char) : titlecase (titlecase s) = titlecase s := by
  obtain ⟨blank, gs, h, rfl⟩ := exists_alternates s
  rw [h.titlecase_flatten, h.map_capitalizeWord.titlecase_flatten, List.map_map]
  exact congrArg List.flatten (List.map_congr_left fun g _ => capitalizeWord_capitalizeWord g)

/-- Blanks between two texts, whatever the texts are, keep their words apart; a text without blanks
is one word. Of a longer text the words change one by one and the blanks stay what and where they
are, and done again nothing changes. -/
theorem titlecase_by_words :
    (∀ a w b, w ≠ [] → (∀ c ∈ w, isBlank c = true) →
      titlecase (a ++ w ++ b) = titlecase a ++ w ++ titlecase b) ∧
    (∀ s, (∀ c ∈ s, isBlank c = false) → titlecase s = capitalize s) ∧
    (∀ s, stretches (titlecase s) = (stretches s).map capitalizeWord) ∧
    (∀ s, words (titlecase s) = (words s).map capitalize ∧ gaps (titlecase s) = gaps s) ∧
    ∀ s, titlecase (titlecase s) = titlecase s := by
  refine ⟨?_, fun s => titlecase_eq_capitalize, stretches_titlecase,
    fun s => ⟨words_titlecase s, gaps_titlecase s⟩, titlecase_titlecase⟩
  intro a w b hne hw
  calc titlecase (a ++ w ++ b)
      = titlecase (a ++ (w ++ b)) := by rw [List.append_assoc]
    _ = titlecase a ++ (w ++ titlecase b) := titlecaseFrom_append hne hw true a b
    _ = titlecase a ++ w ++ titlecase b := (List.append_assoc ..).symm

/-- A ligature becomes two letters, and so does a sharp s behind blanks of two kinds. -/
theorem titlecase_by_words_ligature :
    titlecase ("\ufb01n".toList ++ "\u2003\n".toList ++ "\u00dfa b".toList) =
      "FIn\u2003\nSSa B".toList := by
  have hblank : ∀ c ∈ "\u2003\n".toList, isBlank c = true := List.all_eq_true.mp (by decide)
  have hblanks := titlecase_by_words.1 "\ufb01n".toList "\u2003\n".toList "\u00dfa b".toList
    (by decide) hblank
  rw [hblanks]
  decide

end TaggedGrammar.Text
