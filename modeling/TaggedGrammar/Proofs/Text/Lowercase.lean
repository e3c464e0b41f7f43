import TaggedGrammar.Proofs.Text.Casing

/-!
# Texts whose lower case is a given word

The lower case of a text is made with a table of about 1400 code points, and a capital sigma is
looked at together with its neighbours. For a word of ASCII characters none of this matters: its
letters are lower case of themselves and of their own capitals, and of nothing else. The letter k
alone is an exception, for it is also the lower case of the Kelvin sign.

## Main statements

* `lowerChar_of_lt`: the lower case of an ASCII character.
* `exists_mem_lowerChar`: the lower case of any other character.
* `lower_eq_iff`: the texts whose lower case is a given word.
-/

namespace TaggedGrammar.Text

/-! ### The table of lower cases -/

/-- Below the capitals of ASCII, the table maps to `k` and to characters that are not ASCII. -/
theorem images_lowerRuns : ∀ r ∈ lowerRuns.tail, ∀ n ∈ r.images,
    n.isValidChar ∧ (n = 'k'.toNat ∨ 128 ≤ n) := by decide +kernel

theorem images_lowerExpansions : ∀ e ∈ lowerExpansions,
    ∃ n ∈ e.2, n.isValidChar ∧ 128 ≤ n := by decide

/-- An ASCII character has the lower case that it has among ASCII characters. -/
theorem lowerChar_of_lt {c : Char} (hc : c.toNat < 128) : lowerChar c = [c.toLower] := by
  have hall : ∀ n < 128, lowerChar (Char.ofNat n) = [(Char.ofNat n).toLower] := by
    decide +kernel
  have h := hall c.toNat hc
  rwa [Char.ofNat_toNat] at h

/-- Whether a character is one of ASCII and not the lower case of any that is none. -/
def isPlain (c : Char) : Bool := c.toNat < 128 && c != 'k'

theorem isPlain_of_toNat {n : Nat} (hvalid : n.isValidChar) (hn : n = 'k'.toNat ∨ 128 ≤ n) :
    isPlain (Char.ofNat n) = false := by
  rcases hn with rfl | hn
  · decide
  · rw [isPlain, toNat_ofNat hvalid, Bool.and_eq_false_iff]
    exact Or.inl (decide_eq_false (Nat.not_lt.mpr hn))

/-- The lower case of a character outside of ASCII has a character that is not plain. -/
theorem exists_mem_lowerChar {c : Char} (hc : 128 ≤ c.toNat) :
    ∃ d ∈ lowerChar c, isPlain d = false := by
  cases hlookup : lowerExpansions.lookup c.toNat with
  | some image =>
      obtain ⟨before, after, hsplit, -⟩ := List.lookup_eq_some_iff.mp hlookup
      have hentry : (c.toNat, image) ∈ lowerExpansions := by rw [hsplit]; simp
      obtain ⟨n, hn, hvalid, hlarge⟩ := images_lowerExpansions _ hentry
      rw [lowerChar, mapCase, hlookup]
      exact ⟨Char.ofNat n, List.mem_map_of_mem hn, isPlain_of_toNat hvalid (Or.inr hlarge)⟩
  | none =>
      rw [lowerChar, mapCase, hlookup]
      refine ⟨_, List.mem_singleton_self _, ?_⟩
      unfold mapByRuns
      cases hrun : lowerRuns.find? (·.has c.toNat) with
      | some r =>
          have hhas := List.find?_some hrun
          have hpoint := r.mem_points_of_has hhas
          have hcons : lowerRuns = ⟨65, 90, 1, 32⟩ :: lowerRuns.tail := rfl
          have htail : r ∈ lowerRuns.tail := by
            rcases List.mem_cons.mp (hcons ▸ List.mem_of_find?_eq_some hrun) with rfl | htail
            · obtain ⟨i, hi, he⟩ := List.mem_range'.mp hpoint
              simp only at hi he
              omega
            · exact htail
          obtain ⟨hvalid, himage⟩ := images_lowerRuns r htail _ (List.mem_map_of_mem hpoint)
          exact isPlain_of_toNat hvalid himage
      | none =>
          rw [isPlain, Char.ofNat_toNat, Bool.and_eq_false_iff]
          exact Or.inl (decide_eq_false (Nat.not_lt.mpr hc))

/-! ### Texts -/

/-- The lower case of a text is that of its first character before that of the rest. -/
theorem exists_lowerFrom_cons (before : List Char) (c : Char) (rest : List Char) :
    ∃ image, lowerFrom before (c :: rest) = image ++ lowerFrom (c :: before) rest ∧
      (c.toNat < 128 → image = [c.toLower]) ∧
      (128 ≤ c.toNat → ∃ d ∈ image, isPlain d = false) := by
  refine ⟨_, rfl, ?_, ?_⟩
  · intro hc
    have hsigma : (c == 'Σ') = false := by
      apply beq_eq_false_iff_ne.mpr
      rintro rfl
      exact absurd hc (by decide)
    rw [hsigma]
    exact lowerChar_of_lt hc
  · intro hc
    split
    · split
      · exact ⟨'ς', List.mem_singleton_self _, by decide⟩
      · exact ⟨'σ', List.mem_singleton_self _, by decide⟩
    · exact exists_mem_lowerChar hc

theorem toLower_of_not_capital {c : Char} (hc : c.toNat < 'A'.toNat ∨ 'Z'.toNat < c.toNat) :
    c.toLower = c := by
  unfold Char.toLower
  rw [dif_neg]
  rintro ⟨hfirst, hlast⟩
  have hle : 'A'.toNat ≤ c.toNat := hfirst
  have hge : c.toNat ≤ 'Z'.toNat := hlast
  omega

theorem lowerFrom_eq_iff {before cs word : List Char} (hword : ∀ c ∈ word, isPlain c = true) :
    lowerFrom before cs = word ↔ cs.map Char.toLower = word := by
  induction cs generalizing before word with
  | nil => exact Iff.rfl
  | cons c cs ih =>
      obtain ⟨image, himage, hascii, hother⟩ := exists_lowerFrom_cons before c cs
      rw [himage, List.map_cons]
      by_cases hc : c.toNat < 128
      · rw [hascii hc, List.singleton_append]
        cases word with
        | nil => exact iff_of_false (List.cons_ne_nil _ _) (List.cons_ne_nil _ _)
        | cons d word =>
            rw [List.cons_eq_cons, List.cons_eq_cons, ih (List.forall_mem_cons.mp hword).2]
      · rw [not_lt] at hc
        refine iff_of_false ?_ ?_
        · rintro rfl
          obtain ⟨d, hd, hplain⟩ := hother hc
          exact absurd (hword d (List.mem_append_left _ hd)) (Bool.eq_false_iff.mp hplain)
        · rintro rfl
          have hplain := hword _ List.mem_cons_self
          have hlarge : 'Z'.toNat < c.toNat := Nat.lt_of_lt_of_le (by decide) hc
          rw [toLower_of_not_capital (Or.inr hlarge), isPlain, Bool.and_eq_true,
            decide_eq_true_eq] at hplain
          omega

/-- A word of ASCII characters other than k is the lower case of the texts that differ from it in
capitals at most. -/
theorem lower_eq_iff {cs word : List Char} (hword : ∀ c ∈ word, isPlain c = true) :
    lower cs = word ↔ cs.map Char.toLower = word :=
  lowerFrom_eq_iff hword

/-- The Kelvin sign has the letter k for its lower case. -/
example : lower "oA\u212a".toList = "oak".toList := by decide

end TaggedGrammar.Text
