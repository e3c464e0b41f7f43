import Mathlib.Data.List.TakeWhile
import TaggedGrammar.Text.Blank
import TaggedGrammar.Text.WordCharacter

/-!
# Names, marks and blanks

Blanks and the marks of templates are no name characters, so the marks tell where a name ends.
Trimming finds the one part of a text that begins and ends without a blank, with nothing but
blanks around it.

## Main statements

* `isNameChar_of_isBlank`: no blank may stand in a name.
* `exists_strip`, `strip_append_append`: what is taken off both ends of a text, and what is left.
* `exists_trim`, `trim_append_append`: trimming takes the blanks off both ends and nothing else.
-/

namespace TaggedGrammar.Text

/-! ### Name characters -/

theorem isName_iff {cs : List Char} :
    isName cs = true ↔ cs ≠ [] ∧ ∀ c ∈ cs, isNameChar c = true := by
  simp [isName, List.all_eq_true]

theorem Ranges.exists_of_covers {rs : Ranges} {n : Nat} (h : rs.covers n = true) :
    ∃ r ∈ rs, r.1 ≤ n ∧ n ≤ r.2 := by
  induction rs with
  | nil => cases h
  | cons r rs ih =>
      obtain ⟨first, last⟩ := r
      rw [Ranges.covers_cons] at h
      split at h
      · cases h
      · split at h
        · exact ⟨_, List.mem_cons_self, by omega, by omega⟩
        · obtain ⟨r, hr, hb⟩ := ih h
          exact ⟨r, List.mem_cons_of_mem _ hr, hb⟩

/-- No blank may stand in a name. -/
theorem isNameChar_of_isBlank {c : Char} (h : isBlank c = true) : isNameChar c = false := by
  have hapart : ∀ r ∈ blankRanges, ∀ n ∈ List.range' r.1 (r.2 + 1 - r.1),
      (wordRanges.covers n || n == 45) = false := by decide +kernel
  obtain ⟨r, hr, hfirst, hlast⟩ := Ranges.exists_of_covers h
  have hn := hapart r hr c.toNat (List.mem_range'_1.mpr ⟨hfirst, by omega⟩)
  rw [Bool.or_eq_false_iff] at hn
  have hhyphen : c ≠ '-' := fun he => by simp [he] at hn
  simp [isNameChar, isWordChar, hn.1, hhyphen]

theorem isBlank_of_isNameChar {c : Char} (h : isNameChar c = true) : isBlank c = false := by
  cases hb : isBlank c with
  | false => rfl
  | true => rw [isNameChar_of_isBlank hb] at h; cases h

theorem isNameChar_of_isDigit {c : Char} (h : c.isDigit = true) : isNameChar c = true := by
  have hb : 48 ≤ c.toNat ∧ c.toNat ≤ 57 := by
    simpa [Char.isDigit, UInt32.le_iff_toNat_le] using h
  have hw : isWordChar c = true := by
    unfold isWordChar wordRanges
    rw [Ranges.covers_cons, if_neg (by omega), if_pos (by omega)]
  simp [isNameChar, hw]

/-! ### Parts behind a mark -/

theorem takeWhile_append_cons {cs ds : List Char} {c : Char} (h : c ∉ cs) :
    (cs ++ c :: ds).takeWhile (· != c) = cs := by
  rw [List.takeWhile_append_of_pos fun d hd => by
    simpa using fun he : d = c => h (he ▸ hd)]
  simp

theorem dropWhile_append_cons {cs ds : List Char} {c : Char} (h : c ∉ cs) :
    (cs ++ c :: ds).dropWhile (· != c) = c :: ds := by
  rw [List.dropWhile_append_of_pos fun d hd => by
    simpa using fun he : d = c => h (he ▸ hd)]
  simp

/-- Where a mark stands for the first time, a text can only be split in one way. -/
theorem append_cons_inj {cs ds es fs : List Char} {c : Char} (hc : c ∉ cs) (hd : c ∉ ds)
    (h : cs ++ c :: es = ds ++ c :: fs) : cs = ds ∧ es = fs := by
  have hcs : cs = ds := by
    have := congrArg (List.takeWhile (· != c)) h
    rwa [takeWhile_append_cons hc, takeWhile_append_cons hd] at this
  subst hcs
  exact ⟨rfl, List.cons.inj (List.append_cancel_left h) |>.2⟩

theorem eq_of_dropWhile {cs : List Char} {c d : Char} {ds : List Char}
    (h : cs.dropWhile (· != c) = d :: ds) : d = c := by
  have := List.head?_dropWhile_not (· != c) cs
  rw [h] at this
  simpa using this

/-- A text with a mark in it falls apart there. -/
theorem eq_append_of_dropWhile {cs : List Char} {c d : Char} {ds : List Char}
    (h : cs.dropWhile (· != c) = d :: ds) : cs = cs.takeWhile (· != c) ++ c :: ds := by
  have := List.takeWhile_append_dropWhile (p := (· != c)) (l := cs)
  rw [h, eq_of_dropWhile h] at this
  exact this.symm

theorem not_mem_of_isName {cs : List Char} (h : isName cs = true) {c : Char}
    (hc : isNameChar c = false) : c ∉ cs := by
  intro hm
  simp [(isName_iff.mp h).2 c hm] at hc

theorem not_mem_takeWhile {cs : List Char} {c : Char} : c ∉ cs.takeWhile (· != c) := by
  intro h
  have := List.mem_takeWhile_imp h
  simp at this

/-! ### Taking characters off both ends -/

/-- The characters without those at both ends for which a predicate holds. -/
def strip (p : Char → Bool) (cs : List Char) : List Char :=
  ((cs.dropWhile p).reverse.dropWhile p).reverse

theorem dropWhile_of_head {p : Char → Bool} {cs : List Char} (h : ∀ c ∈ cs.head?, p c = false) :
    cs.dropWhile p = cs := by
  cases cs with
  | nil => rfl
  | cons c cs => exact List.dropWhile_cons_of_neg (by simp [h c rfl])

/-- What is taken off both ends does not matter if it does not go on inside. -/
theorem strip_append_append {p : Char → Bool} {before cs after : List Char}
    (hb : ∀ c ∈ before, p c = true) (hne : cs ≠ []) (hhead : ∀ c ∈ cs.head?, p c = false)
    (hlast : ∀ c ∈ cs.getLast?, p c = false) (ha : ∀ c ∈ after, p c = true) :
    strip p (before ++ cs ++ after) = cs := by
  have hafter : (cs ++ after).dropWhile p = cs ++ after := by
    apply dropWhile_of_head
    cases cs with
    | nil => exact absurd rfl hne
    | cons c cs => exact hhead
  have hend : cs.reverse.dropWhile p = cs.reverse := by
    apply dropWhile_of_head
    rwa [List.head?_reverse]
  have hrev : ∀ c ∈ after.reverse, p c = true := fun c hc => ha c (List.mem_reverse.mp hc)
  rw [strip, List.append_assoc, List.dropWhile_append_of_pos hb, hafter, List.reverse_append,
    List.dropWhile_append_of_pos hrev, hend, List.reverse_reverse]

/-- A text is what is left of it, with what is taken off at both ends. -/
theorem exists_strip (p : Char → Bool) (cs : List Char) :
    ∃ after, (∀ c ∈ after, p c = true) ∧ cs = cs.takeWhile p ++ strip p cs ++ after := by
  refine ⟨((cs.dropWhile p).reverse.takeWhile p).reverse, ?_, ?_⟩
  · intro c hc
    exact List.mem_takeWhile_imp (List.mem_reverse.mp hc)
  · have hright : strip p cs ++ ((cs.dropWhile p).reverse.takeWhile p).reverse =
        cs.dropWhile p := by
      rw [strip, ← List.reverse_append, List.takeWhile_append_dropWhile, List.reverse_reverse]
    rw [List.append_assoc, hright]
    exact (List.takeWhile_append_dropWhile).symm

/-! ### Trimming -/

/-- The text is not empty, and neither its first nor its last character is a blank. -/
structure Tight (cs : List Char) : Prop where
  nonempty : cs ≠ []
  head : ∀ c ∈ cs.head?, isBlank c = false
  last : ∀ c ∈ cs.getLast?, isBlank c = false

theorem Tight.head_append {cs : List Char} (h : Tight cs) (ds : List Char) :
    ∀ c ∈ (cs ++ ds).head?, isBlank c = false := by
  cases cs with
  | nil => exact absurd rfl h.nonempty
  | cons c cs => exact h.head

theorem tight_of_isName {n : List Char} (h : isName n = true) : Tight n where
  nonempty := (isName_iff.mp h).1
  head c hc := isBlank_of_isNameChar ((isName_iff.mp h).2 c (List.mem_of_head? hc))
  last c hc := isBlank_of_isNameChar ((isName_iff.mp h).2 c (List.mem_of_getLast? hc))

theorem tight_singleton {c : Char} (hc : isBlank c = false) : Tight [c] where
  nonempty := List.cons_ne_nil _ _
  head := fun _ hd => Option.some.inj hd ▸ hc
  last := fun _ hd => Option.some.inj hd ▸ hc

/-- What stands between a first character that is no blank and a tight end does not matter. -/
theorem tight_cons_append {c : Char} (hc : isBlank c = false) (cs : List Char)
    {ds : List Char} (h : Tight ds) : Tight (c :: (cs ++ ds)) where
  nonempty := List.cons_ne_nil _ _
  head d hd := by
    obtain rfl : c = d := by simpa using hd
    exact hc
  last d hd := by
    obtain ⟨e, he⟩ := Option.isSome_iff_exists.mp (List.getLast?_isSome.mpr h.nonempty)
    rw [← List.cons_append, List.getLast?_append, he] at hd
    exact h.last d (he.trans hd)

theorem takeWhile_isBlank_of_head {cs : List Char} (h : ∀ c ∈ cs.head?, isBlank c = false) :
    cs.takeWhile isBlank = [] := by
  cases cs with
  | nil => rfl
  | cons c cs => exact List.takeWhile_cons_of_neg (by simp [h c rfl])

theorem trimLeft_blanks_append {blanks cs : List Char}
    (hb : ∀ c ∈ blanks, isBlank c = true) : trimLeft (blanks ++ cs) = trimLeft cs :=
  List.dropWhile_append_of_pos hb

theorem trimLeft_cons_of_isBlank {c : Char} (hc : isBlank c = true) (cs : List Char) :
    trimLeft (c :: cs) = trimLeft cs :=
  List.dropWhile_cons_of_pos hc

theorem trim_cons_of_isBlank {c : Char} (hc : isBlank c = true) (cs : List Char) :
    trim (c :: cs) = trim cs :=
  congrArg trimRight (trimLeft_cons_of_isBlank hc cs)

theorem length_takeWhile_add_length_trimLeft (cs : List Char) :
    (cs.takeWhile isBlank).length + (trimLeft cs).length = cs.length := by
  rw [trimLeft, ← List.length_append, List.takeWhile_append_dropWhile]

theorem trimLeft_of_head {cs : List Char} (h : ∀ c ∈ cs.head?, isBlank c = false) :
    trimLeft cs = cs :=
  dropWhile_of_head h

/-- Blanks around a tight text are trimmed off. -/
theorem trim_append_append {before cs after : List Char}
    (hb : ∀ c ∈ before, isBlank c = true) (h : Tight cs)
    (ha : ∀ c ∈ after, isBlank c = true) : trim (before ++ cs ++ after) = cs :=
  strip_append_append hb h.nonempty h.head h.last ha

/-- A text is what trimming leaves of it, with blanks around. -/
theorem exists_trim (cs : List Char) :
    ∃ after, (∀ c ∈ after, isBlank c = true) ∧
      cs = cs.takeWhile isBlank ++ trim cs ++ after :=
  exists_strip isBlank cs

end TaggedGrammar.Text
