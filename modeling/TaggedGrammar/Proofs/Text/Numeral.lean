import Mathlib.Data.Nat.Digits.Defs
import TaggedGrammar.Proofs.Text.Name
import TaggedGrammar.Text.Numeral

/-!
# Numerals and the numbers that they write

A number is written by decimal digits of any script, between which single underscores may stand,
by a sign before them if there is one, and by blanks around. The reader takes one character after
the other and remembers whether the last one was a digit. It reads just the texts that are written
in this way, and the number that it reads is the one that they write.

## Main statements

* `natural?_eq_some_iff`: what the reader makes of digits.
* `signed?_eq_some_iff`: what it makes of a sign before them.
* `integer?_eq_some_iff`: what it makes of a text.
-/

namespace TaggedGrammar.Text

/-! ### The grammar -/

/-- Digits, the first in front, with at most one underscore between two of them. -/
inductive Digits : List Char → List Nat → Prop
  | last {c : Char} {d : Nat} (hd : digitValue? c = some d) : Digits [c] [d]
  | next {c : Char} {d : Nat} {cs : List Char} {ds : List Nat} (hd : digitValue? c = some d)
      (h : Digits cs ds) : Digits (c :: cs) (d :: ds)
  | underscore {c : Char} {d : Nat} {cs : List Char} {ds : List Nat} (hd : digitValue? c = some d)
      (h : Digits cs ds) : Digits (c :: '_' :: cs) (d :: ds)

/-- The number with the given decimal digits, the last of them the ones. -/
def digitsValue (ds : List Nat) : Nat := Nat.ofDigits 10 ds.reverse

/-- Digits, or a sign and digits, and the number that they write. -/
inductive Signed : List Char → Int → Prop
  | bare {cs : List Char} {ds : List Nat} (h : Digits cs ds) : Signed cs (digitsValue ds)
  | plus {cs : List Char} {ds : List Nat} (h : Digits cs ds) : Signed ('+' :: cs) (digitsValue ds)
  | minus {cs : List Char} {ds : List Nat} (h : Digits cs ds) :
      Signed ('-' :: cs) (-digitsValue ds)

/-- The text is a numeral of the number with blanks around it. -/
def Writes (s : String) (n : Int) : Prop :=
  ∃ before numeral after, s.toList = before ++ numeral ++ after ∧
    (∀ c ∈ before, isNumeralBlank c = true) ∧ Signed numeral n ∧
    ∀ c ∈ after, isNumeralBlank c = true

/-! ### Single digits -/

theorem exists_of_digitValue? {c : Char} {d : Nat} (h : digitValue? c = some d) :
    ∃ z ∈ zeroDigits, z ≤ c.toNat ∧ c.toNat < z + 10 := by
  obtain ⟨z, hz, -⟩ := Option.map_eq_some_iff.mp h
  have hrange := List.find?_some hz
  rw [Bool.and_eq_true, decide_eq_true_eq, decide_eq_true_eq] at hrange
  exact ⟨z, List.mem_of_find?_eq_some hz, hrange⟩

theorem isBlank_of_digitValue? {c : Char} {d : Nat} (h : digitValue? c = some d) :
    isBlank c = false := by
  have hapart : ∀ z ∈ zeroDigits, ∀ n ∈ List.range' z 10, blankRanges.covers n = false := by
    decide +kernel
  obtain ⟨z, hz, hrange⟩ := exists_of_digitValue? h
  exact hapart z hz c.toNat (List.mem_range'_1.mpr hrange)

theorem toNat_of_digitValue? {c : Char} {d : Nat} (h : digitValue? c = some d) :
    c.toNat < 'A'.toNat ∨ 'Z'.toNat < c.toNat := by
  have hzero : ∀ z ∈ zeroDigits, z + 9 < 'A'.toNat ∨ 'Z'.toNat < z := by decide
  obtain ⟨z, hz, hfirst, hlast⟩ := exists_of_digitValue? h
  have hletters := hzero z hz
  omega

/-- The digits of ASCII are the first in the list. -/
theorem digitValue?_of_isDigit {c : Char} (h : c.isDigit = true) :
    digitValue? c = some (c.toNat - '0'.toNat) := by
  have hrange : 48 ≤ c.toNat ∧ c.toNat < 48 + 10 := by
    simpa [Char.isDigit, UInt32.le_iff_toNat_le, Nat.lt_succ_iff] using h
  have hfind : zeroDigits.find? (fun z => z ≤ c.toNat && c.toNat < z + 10) = some 48 := by
    unfold zeroDigits
    apply List.find?_cons_of_pos
    simp [hrange]
  rw [digitValue?, hfind]
  rfl

/-! ### Reading digits -/

/-- What may stand behind a digit. -/
inductive MoreDigits : List Char → List Nat → Prop
  | none : MoreDigits [] []
  | next {cs : List Char} {ds : List Nat} (h : Digits cs ds) : MoreDigits cs ds
  | underscore {cs : List Char} {ds : List Nat} (h : Digits cs ds) : MoreDigits ('_' :: cs) ds

theorem digits_cons_iff {c : Char} {cs : List Char} {es : List Nat} :
    Digits (c :: cs) es ↔ ∃ d ds, digitValue? c = some d ∧ MoreDigits cs ds ∧ es = d :: ds := by
  constructor
  · intro h
    cases h with
    | last hd => exact ⟨_, _, hd, .none, rfl⟩
    | next hd h => exact ⟨_, _, hd, .next h, rfl⟩
    | underscore hd h => exact ⟨_, _, hd, .underscore h, rfl⟩
  · rintro ⟨d, ds, hd, h, rfl⟩
    cases h with
    | none => exact .last hd
    | next h => exact .next hd h
    | underscore h => exact .underscore hd h

theorem not_digits_cons {c : Char} (hc : digitValue? c = none) {cs : List Char} {ds : List Nat} :
    ¬Digits (c :: cs) ds := by
  intro h
  obtain ⟨d, -, hd, -⟩ := digits_cons_iff.mp h
  exact absurd (hc.symm.trans hd) nofun

theorem digitValue?_underscore : digitValue? '_' = none := by decide

/-- More digits behind a number that has been read. -/
def appendDigits (n : Nat) (ds : List Nat) : Nat := ds.foldl (fun n d => 10 * n + d) n

theorem appendDigits_zero (ds : List Nat) : appendDigits 0 ds = digitsValue ds := by
  rw [appendDigits, digitsValue, Nat.ofDigits_eq_foldr, List.foldr_reverse]
  congr 1
  funext n d
  exact Nat.add_comm _ _

/-- The reader goes on with digits, and behind a digit it may as well end or pass over an
underscore. -/
theorem digitsFrom_eq_some_iff (value : Nat) {cs : List Char} {n : Nat} :
    (digitsFrom false value cs = some n ↔ ∃ ds, Digits cs ds ∧ appendDigits value ds = n) ∧
    (digitsFrom true value cs = some n ↔ ∃ ds, MoreDigits cs ds ∧ appendDigits value ds = n) := by
  induction cs generalizing value with
  | nil =>
      constructor
      · exact iff_of_false nofun fun ⟨_, h, _⟩ => nomatch h
      · constructor
        · intro h
          exact ⟨[], .none, Option.some.inj h⟩
        · rintro ⟨ds, h, rfl⟩
          cases h with
          | none => rfl
          | next h => cases h
  | cons c cs ih =>
      cases hd : digitValue? c with
      | some d =>
          have hread (afterDigit : Bool) :
              digitsFrom afterDigit value (c :: cs) = digitsFrom true (10 * value + d) cs := by
            rw [digitsFrom, hd]
          have hdigits : digitsFrom true (10 * value + d) cs = some n ↔
              ∃ ds, Digits (c :: cs) ds ∧ appendDigits value ds = n := by
            rw [(ih _).2]
            constructor
            · rintro ⟨ds, h, hn⟩
              exact ⟨d :: ds, digits_cons_iff.mpr ⟨d, ds, hd, h, rfl⟩, hn⟩
            · rintro ⟨es, h, hn⟩
              obtain ⟨d', ds, hd', hmore, rfl⟩ := digits_cons_iff.mp h
              obtain rfl := Option.some.inj (hd.symm.trans hd')
              exact ⟨ds, hmore, hn⟩
          rw [hread, hread, hdigits]
          refine ⟨Iff.rfl, exists_congr fun ds => and_congr_left' ⟨.next, ?_⟩⟩
          intro h
          cases h with
          | next h => exact h
          | underscore h =>
              rw [digitValue?_underscore] at hd
              cases hd
      | none =>
          have hno {es : List Nat} : ¬Digits (c :: cs) es := not_digits_cons hd
          have hread (afterDigit : Bool) : digitsFrom afterDigit value (c :: cs) =
              if c == '_' && afterDigit then digitsFrom false value cs else none := by
            rw [digitsFrom, hd]
          rw [hread, hread, Bool.and_false, Bool.and_true]
          constructor
          · exact iff_of_false nofun fun ⟨_, h, _⟩ => hno h
          · by_cases hc : c = '_'
            · rw [if_pos (beq_iff_eq.mpr hc), (ih _).1, hc]
              refine exists_congr fun ds => and_congr_left' ⟨.underscore, ?_⟩
              intro h
              cases h with
              | next h => exact absurd (hc ▸ h) hno
              | underscore h => exact h
            · rw [if_neg (mt beq_iff_eq.mp hc)]
              refine iff_of_false nofun ?_
              rintro ⟨ds, h, -⟩
              cases h with
              | next h => exact hno h
              | underscore h => exact hc rfl

theorem natural?_eq_some_iff {cs : List Char} {n : Nat} :
    natural? cs = some n ↔ ∃ ds, Digits cs ds ∧ digitsValue ds = n := by
  rw [natural?, (digitsFrom_eq_some_iff 0).1]
  simp only [appendDigits_zero]

/-! ### Signs -/

theorem natural?_map_eq_some_iff {cs : List Char} {f : Nat → Int} {n : Int} :
    (natural? cs).map f = some n ↔ ∃ ds, Digits cs ds ∧ f (digitsValue ds) = n := by
  simp only [Option.map_eq_some_iff, natural?_eq_some_iff]
  constructor
  · rintro ⟨_, ⟨ds, h, rfl⟩, hn⟩
    exact ⟨ds, h, hn⟩
  · rintro ⟨ds, h, hn⟩
    exact ⟨_, ⟨ds, h, rfl⟩, hn⟩

theorem signed?_minus (cs : List Char) :
    signed? ('-' :: cs) = (natural? cs).map fun n : Nat => -(n : Int) := by
  rw [signed?]
  cases natural? cs <;> rfl

theorem signed?_plus (cs : List Char) : signed? ('+' :: cs) = (natural? cs).map Int.ofNat := rfl

theorem signed?_bare {cs : List Char} (hminus : cs.head? ≠ some '-') (hplus : cs.head? ≠ some '+') :
    signed? cs = (natural? cs).map Int.ofNat := by
  unfold signed?
  split
  · exact absurd rfl hminus
  · exact absurd rfl hplus
  · rfl

theorem Digits.head_ne {cs : List Char} {ds : List Nat} (h : Digits cs ds) {c : Char}
    (hc : digitValue? c = none) : cs.head? ≠ some c := by
  intro hhead
  obtain ⟨rest, rfl⟩ := List.head?_eq_some_iff.mp hhead
  exact not_digits_cons hc h

theorem signed?_eq_some_iff {cs : List Char} {n : Int} : signed? cs = some n ↔ Signed cs n := by
  constructor
  · intro h
    by_cases hminus : cs.head? = some '-'
    · obtain ⟨rest, rfl⟩ := List.head?_eq_some_iff.mp hminus
      rw [signed?_minus, natural?_map_eq_some_iff] at h
      obtain ⟨ds, hds, rfl⟩ := h
      exact .minus hds
    · by_cases hplus : cs.head? = some '+'
      · obtain ⟨rest, rfl⟩ := List.head?_eq_some_iff.mp hplus
        rw [signed?_plus, natural?_map_eq_some_iff] at h
        obtain ⟨ds, hds, rfl⟩ := h
        exact .plus hds
      · rw [signed?_bare hminus hplus, natural?_map_eq_some_iff] at h
        obtain ⟨ds, hds, rfl⟩ := h
        exact .bare hds
  · intro h
    cases h with
    | @bare _ ds h =>
        rw [signed?_bare (h.head_ne (by decide)) (h.head_ne (by decide)), natural?_map_eq_some_iff]
        exact ⟨ds, h, rfl⟩
    | @plus _ ds h =>
        rw [signed?_plus, natural?_map_eq_some_iff]
        exact ⟨ds, h, rfl⟩
    | @minus _ ds h =>
        rw [signed?_minus, natural?_map_eq_some_iff]
        exact ⟨ds, h, rfl⟩

/-! ### Blanks around -/

theorem Digits.exists_mem {cs : List Char} {ds : List Nat} (h : Digits cs ds) :
    ∃ c ∈ cs, ∃ d, digitValue? c = some d := by
  cases h with
  | last hd => exact ⟨_, List.mem_cons_self, _, hd⟩
  | next hd _ => exact ⟨_, List.mem_cons_self, _, hd⟩
  | underscore hd _ => exact ⟨_, List.mem_cons_self, _, hd⟩

/-- There is a digit in a text that writes a number. -/
theorem Writes.exists_mem {s : String} {n : Int} (h : Writes s n) :
    ∃ c ∈ s.toList, ∃ d, digitValue? c = some d := by
  obtain ⟨before, numeral, after, hs, -, hnumeral, -⟩ := h
  obtain ⟨c, hc, hd⟩ : ∃ c ∈ numeral, ∃ d, digitValue? c = some d := by
    cases hnumeral with
    | bare h => exact h.exists_mem
    | plus h => exact h.exists_mem.imp fun c => And.imp_left (List.mem_cons_of_mem _)
    | minus h => exact h.exists_mem.imp fun c => And.imp_left (List.mem_cons_of_mem _)
  refine ⟨c, ?_, hd⟩
  rw [hs]
  exact List.mem_append_left _ (List.mem_append_right _ hc)

theorem Digits.tight {cs : List Char} {ds : List Nat} (h : Digits cs ds) : Tight cs := by
  induction h with
  | last hd => exact tight_singleton (isBlank_of_digitValue? hd)
  | next hd _ ih => exact tight_cons_append (isBlank_of_digitValue? hd) [] ih
  | underscore hd _ ih => exact tight_cons_append (isBlank_of_digitValue? hd) ['_'] ih

/-- A numeral neither begins nor ends with a blank. -/
theorem Signed.tight {cs : List Char} {n : Int} (h : Signed cs n) : Tight cs := by
  cases h with
  | bare h => exact h.tight
  | plus h => exact tight_cons_append (by decide) [] h.tight
  | minus h => exact tight_cons_append (by decide) [] h.tight

theorem isNumeralBlank_of_isBlank {c : Char} (h : isBlank c = false) :
    isNumeralBlank c = false := by
  rw [isNumeralBlank, h, Bool.false_and]

theorem integer?_eq_signed? (s : String) :
    integer? s = signed? (strip isNumeralBlank s.toList) := rfl

/-- The texts that are read as a number are those that write it. -/
theorem integer?_eq_some_iff {s : String} {n : Int} : integer? s = some n ↔ Writes s n := by
  rw [integer?_eq_signed?, signed?_eq_some_iff]
  constructor
  · intro h
    obtain ⟨after, hafter, hs⟩ := exists_strip isNumeralBlank s.toList
    exact ⟨_, _, after, hs, fun c => List.mem_takeWhile_imp, h, hafter⟩
  · rintro ⟨before, numeral, after, hs, hbefore, h, hafter⟩
    have htight := h.tight
    have hhead : ∀ c ∈ numeral.head?, isNumeralBlank c = false :=
      fun c hc => isNumeralBlank_of_isBlank (htight.head c hc)
    have hlast : ∀ c ∈ numeral.getLast?, isNumeralBlank c = false :=
      fun c hc => isNumeralBlank_of_isBlank (htight.last c hc)
    rwa [hs, strip_append_append hbefore htight.nonempty hhead hlast hafter]

/-- A text that is no numeral is refused. -/
theorem readInteger_eq_iff {s : String} {answer : Except NotANumeral Int} :
    readInteger s = answer ↔
      (∃ n, Writes s n ∧ answer = .ok n) ∨ (∀ n, ¬Writes s n) ∧ answer = .error ⟨s⟩ := by
  simp only [← integer?_eq_some_iff]
  unfold readInteger
  cases integer? s with
  | some n => simp [eq_comm]
  | none => simp [eq_comm]

end TaggedGrammar.Text
