import Mathlib.Data.List.Chain
import Mathlib.Data.List.Induction
import TaggedGrammar.Proofs.Template.Body
import TaggedGrammar.Template.Parser

/-!
# Pieces of templates

A template is a sequence of pieces: runs of text, and bodies between `<` and `>`. In a run every
bracket stands behind a backslash. Two runs never meet, and a run before a substitution does
not end in a backslash, which would take the bracket behind it into the run. Under these two
rules a text falls into pieces in at most one way.

## Main statements

* `unescape_eq_plain`: the text of a run is the run without the backslashes before brackets.
* `Decomposes.unique`: a text has at most one decomposition.
-/

namespace TaggedGrammar.Template

/-! ### The grammar -/

/-- Whether a character is one of the two brackets. -/
def isBracket (c : Char) : Bool := c == '<' || c == '>'

/-- Every bracket stands directly behind a backslash. -/
def Escaped (cs : List Char) : Prop :=
  ∀ before c after, cs = before ++ c :: after → isBracket c = true →
    before.getLast? = some '\\'

/-- The characters without the backslashes that stand directly before a bracket. -/
def plain : List Char → List Char
  | [] => []
  | c :: cs => if c = '\\' ∧ cs.head?.any isBracket then plain cs else c :: plain cs

/-- A part of a template. -/
inductive Piece where
  | run (text : List Char)
  | substitution (body : Body)

namespace Piece

/-- The characters of a piece. -/
def text : Piece → List Char
  | run cs => cs
  | substitution b => '<' :: (b.text ++ ['>'])

/-- What a piece may be. -/
def WellFormed : Piece → Prop
  | run cs => cs ≠ [] ∧ Escaped cs
  | substitution b => b.WellFormed

/-- Whether a piece may stand directly before another. -/
def MayPrecede : Piece → Piece → Prop
  | run _, run _ => False
  | run cs, substitution _ => cs.getLast? ≠ some '\\'
  | substitution _, _ => True

/-- The token that a piece stands for. -/
def token : Piece → Token
  | run cs => .literal (String.ofList (plain cs))
  | substitution b => b.token

end Piece

/-- The pieces, one after the other, are the text, and each may stand where it does. -/
structure Decomposes (ps : List Piece) (cs : List Char) : Prop where
  wellFormed : ∀ p ∈ ps, p.WellFormed
  chain : ps.IsChain Piece.MayPrecede
  text : ps.flatMap Piece.text = cs

/-! ### Runs -/

theorem isBracket_iff {c : Char} : isBracket c = true ↔ c = '<' ∨ c = '>' := by
  simp [isBracket]

theorem escaped_nil : Escaped [] := by
  intro before c after h
  exact absurd h (by simp)

theorem Body.escaped_text {b : Body} (h : b.WellFormed) : Escaped b.text := by
  rintro before c after he hc
  have hm : c ∈ b.text := by simp [he]
  have hnot : c ∉ b.text :=
    Body.not_mem_text h ((isBracket_iff.mp hc).imp_right Or.inl)
  exact absurd hm hnot

/-- Runs grow to the right: a bracket may be added behind a backslash. -/
theorem escaped_concat_iff {cs : List Char} {c : Char} :
    Escaped (cs ++ [c]) ↔ Escaped cs ∧ (isBracket c = true → cs.getLast? = some '\\') := by
  constructor
  · intro h
    refine ⟨?_, h cs c [] rfl⟩
    rintro before d after rfl
    exact h before d (after ++ [c]) (by simp)
  · rintro ⟨h, hc⟩ before d after he hd
    rcases List.eq_nil_or_concat after with rfl | ⟨after, e, rfl⟩
    · obtain ⟨rfl, rfl⟩ := List.append_singleton_inj.mp he
      exact hc hd
    · have hcs : cs = before ++ d :: after := by
        have he' : cs ++ [c] = (before ++ d :: after) ++ [e] := by simpa using he
        exact (List.append_singleton_inj.mp he').1
      exact h before d after hcs hd

/-- A run begins with no bracket. -/
theorem Escaped.head_ne {c : Char} {cs : List Char} (h : Escaped (c :: cs)) :
    isBracket c = false := by
  cases hc : isBracket c with
  | false => rfl
  | true => exact absurd (h [] c cs rfl hc) (by simp)

/-- Dropping pairs from the left drops the backslash before each bracket. -/
theorem unescape_eq_plain (cs : List Char) : unescape cs = plain cs := by
  fun_induction unescape cs with
  | case1 => rfl
  | case2 c => simp [plain]
  | case3 c d cs h ih =>
      obtain ⟨rfl, hd⟩ := h
      have hne : d ≠ '\\' := by rcases hd with rfl | rfl <;> decide
      rw [plain, if_pos ⟨rfl, isBracket_iff.mpr hd⟩, plain, if_neg fun h => hne h.1, ih]
  | case4 c d cs h ih =>
      have hpair : ¬(c = '\\' ∧ (d :: cs).head?.any isBracket = true) :=
        fun hc => h ⟨hc.1, isBracket_iff.mp hc.2⟩
      rw [plain, if_neg hpair, ih]

theorem literal_eq_token (cs : List Char) : literal cs = (Piece.run cs).token := by
  rw [literal, unescape_eq_plain, Piece.token]

/-! ### One decomposition -/

theorem Decomposes.text_ne_nil {p : Piece} {ps : List Piece} {cs : List Char}
    (h : Decomposes (p :: ps) cs) : cs ≠ [] := by
  have hp := h.wellFormed p List.mem_cons_self
  rw [← h.text, List.flatMap_cons]
  cases p with
  | run ds => exact List.append_ne_nil_of_left_ne_nil hp.1 _
  | substitution b => exact List.cons_ne_nil _ _

theorem Decomposes.tail {p : Piece} {ps : List Piece} {cs : List Char}
    (h : Decomposes (p :: ps) cs) : Decomposes ps (ps.flatMap Piece.text) where
  wellFormed q hq := h.wellFormed q (List.mem_cons_of_mem p hq)
  chain := h.chain.tail
  text := rfl

/-- Behind a run a text ends or goes on with a bracket that is not escaped. -/
theorem Decomposes.behind_run {cs ds : List Char} {ps : List Piece}
    (h : Decomposes (.run cs :: ps) ds) : ps = [] ∨
      cs.getLast? ≠ some '\\' ∧ ∃ rest, ps.flatMap Piece.text = '<' :: rest := by
  cases ps with
  | nil => exact Or.inl rfl
  | cons p ps =>
      have hp := (List.isChain_cons_cons.mp h.chain).1
      cases p with
      | run ds => exact absurd hp id
      | substitution b => exact Or.inr ⟨hp, _, rfl⟩

/-- A run of one decomposition is not a proper part of a run of another. -/
theorem Decomposes.run_le {cs ds es : List Char} {ps : List Piece} (hds : Escaped ds)
    (h : Decomposes (.run cs :: ps) es) {extra rest : List Char} (hd : ds = cs ++ extra)
    (hp : ps.flatMap Piece.text = extra ++ rest) : extra = [] := by
  cases extra with
  | nil => rfl
  | cons c extra =>
      rcases h.behind_run with rfl | ⟨hlast, rest', hrest⟩
      · cases hp
      · rw [hrest] at hp
        obtain rfl : '<' = c := (List.cons.inj hp).1
        exact absurd (hds cs '<' extra hd (by decide)) hlast

theorem Piece.WellFormed.text_run_ne {cs : List Char} (h : (run cs).WellFormed)
    (rest rest' : List Char) : cs ++ rest ≠ '<' :: rest' := by
  intro he
  cases cs with
  | nil => exact h.1 rfl
  | cons c cs =>
      obtain rfl : c = '<' := (List.cons.inj he).1
      exact absurd h.2.head_ne (by decide)

/-- Two decompositions of a text begin with the same piece. -/
theorem Decomposes.head_unique {p q : Piece} {ps qs : List Piece} {cs : List Char}
    (h : Decomposes (p :: ps) cs) (h' : Decomposes (q :: qs) cs) : p = q := by
  have hp := h.wellFormed p List.mem_cons_self
  have hq := h'.wellFormed q List.mem_cons_self
  have htext : p.text ++ ps.flatMap Piece.text = q.text ++ qs.flatMap Piece.text := by
    rw [← List.flatMap_cons, ← List.flatMap_cons, h.text, h'.text]
  cases p with
  | run ds =>
      cases q with
      | run es =>
          rcases List.append_eq_append_iff.mp htext with
            ⟨extra, hd, hrest⟩ | ⟨extra, hd, hrest⟩
          · rw [h.run_le hq.2 hd hrest, List.append_nil] at hd
            exact congrArg Piece.run hd.symm
          · rw [h'.run_le hp.2 hd hrest, List.append_nil] at hd
            exact congrArg Piece.run hd
      | substitution b => exact absurd htext (hp.text_run_ne _ _)
  | substitution b =>
      cases q with
      | run es => exact absurd htext.symm (hq.text_run_ne _ _)
      | substitution b' =>
          have hbody : b.text ++ '>' :: ps.flatMap Piece.text =
              b'.text ++ '>' :: qs.flatMap Piece.text := by
            simpa [Piece.text] using htext
          have hclose := Text.append_cons_inj (Body.not_mem_text hp (Or.inr (Or.inl rfl)))
            (Body.not_mem_text hq (Or.inr (Or.inl rfl))) hbody
          rw [Body.text_injective hp hq hclose.1]

/-- The pieces of a text can be found again. -/
theorem Decomposes.unique {ps qs : List Piece} {cs : List Char} (h : Decomposes ps cs)
    (h' : Decomposes qs cs) : ps = qs := by
  induction ps generalizing qs cs with
  | nil =>
      cases qs with
      | nil => rfl
      | cons q qs => exact absurd h.text.symm h'.text_ne_nil
  | cons p ps ih =>
      cases qs with
      | nil => exact absurd h'.text.symm h.text_ne_nil
      | cons q qs =>
          obtain rfl := h.head_unique h'
          have htext := h.text.trans h'.text.symm
          rw [List.flatMap_cons, List.flatMap_cons] at htext
          have hrest := h'.tail
          rw [← List.append_cancel_left htext] at hrest
          rw [ih h.tail hrest]

end TaggedGrammar.Template
