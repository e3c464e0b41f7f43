import Mathlib.Logic.Relation
import TaggedGrammar.Proofs.Yaml.Scalar.Style
import TaggedGrammar.Yaml.Lexing

/-!
# Steps from token to token

A run over a text goes from the beginning of one token to the beginning of the next. `Step` is
one such move, `Leads` goes from behind a token over some others, and the tokens of a text are
those at the end of its steps. `Attains` also says where the reading stops on the way if there is
a fault. The states that stand outside of brackets are put in the form of `Lexing.block`, which
holds the tokens in the order of the text.

## Main statements

* `advance_fold`, `advance_spaces`, `advance_here`: where the next token stands.
* `Leads.behind`: a token and what follows it.
* `run_of_leads`: the tokens of a text that has been read to its end.
* `exists_fault_mem_run`: a text in which the reading stops.
-/

namespace TaggedGrammar.Yaml

namespace Lexing

/-! ### States in block form -/

/-- The state outside of all brackets, with the tokens found so far in order. -/
def block (c : Cursor) (ts : List Token) (indent : Int) (outer : List Int)
    (key : Option KeyStart) (allowed : Bool) : Lexing :=
  ⟨c, ts.reverse, ts.length, indent, outer, key, [], allowed⟩

section Block

variable {c d : Cursor} {ts : List Token} {indent : Int} {outer : List Int}
variable {key : Option KeyStart} {allowed : Bool}

@[simp] theorem cursor_block : (block c ts indent outer key allowed).cursor = c := rfl

@[simp] theorem indent_block : (block c ts indent outer key allowed).indent = indent := rfl

@[simp] theorem key_block : (block c ts indent outer key allowed).key = key := rfl

@[simp] theorem inFlow_block : (block c ts indent outer key allowed).inFlow = false := rfl

theorem emit_block (t : Token) : (block c ts indent outer key allowed).emit t =
    block c (ts ++ [t]) indent outer key allowed := by
  simp [block, emit]

theorem moveTo_block : (block c ts indent outer key allowed).moveTo d =
    block d ts indent outer key allowed := rfl

theorem allowKey_block (a : Bool) : (block c ts indent outer key allowed).allowKey a =
    block c ts indent outer key a := rfl

/-- No collection is closed where none begins right of the column. -/
theorem unwind_of_le {column : Int} (h : indent ≤ column) :
    (block c ts indent outer key allowed).unwind column = block c ts indent outer key allowed := by
  cases outer with
  | nil => rfl
  | cons i outer => exact if_neg (Int.not_lt.mpr h)

/-- A collection that begins right of the column is closed before those around it. -/
theorem unwind_of_lt {column i : Int} (h : column < indent) :
    (block c ts indent (i :: outer) key allowed).unwind column =
      (block c (ts ++ [.blockEnd]) i outer key allowed).unwind column := by
  have hclose : (block c ts indent (i :: outer) key allowed).unwind column =
      closeBlocks column ((block c ts i outer key allowed).emit .blockEnd) outer := if_pos h
  rw [hclose, emit_block]
  rfl

theorem cursor_closeBlocks (column : Int) (s : Lexing) (is : List Int) :
    (closeBlocks column s is).cursor = s.cursor := by
  induction is generalizing s with
  | nil => rfl
  | cons i is ih =>
      rw [closeBlocks]
      split
      · exact ih _
      · rfl

theorem cursor_unwind (s : Lexing) (column : Int) : (s.unwind column).cursor = s.cursor := by
  unfold unwind
  split
  · rfl
  · exact cursor_closeBlocks column s _

end Block

/-! ### Going to the next token -/

theorem length_skipSpaces_skipComment_le (c : Cursor) :
    c.skipSpaces.skipComment.rest.length ≤ c.rest.length := by
  have hspaces : c.skipSpaces.rest.length ≤ c.rest.length := Cursor.length_skipWhile_le c _
  unfold Cursor.skipComment
  split
  · exact Nat.le_trans (Cursor.length_skipWhile_le _ _) hspaces
  · exact hspaces

theorem length_toToken_le (inFlow allowed : Bool) (c : Cursor) :
    (toToken inFlow allowed c).2.rest.length ≤ c.rest.length := by
  fun_induction toToken inFlow allowed c with
  | case1 allowed c d h => exact length_skipSpaces_skipComment_le c
  | case2 allowed c d b e h hlt ih => exact Nat.le_trans ih (Nat.le_of_lt hlt)
  | case3 allowed c d b e h hlt => exact length_skipSpaces_skipComment_le c

/-- No comment, space or line end stands here, and no byte order mark. -/
def AtToken (k : List Char) : Prop :=
  ∀ ch ∈ k.head?, isGap ch = false ∧ ch ≠ '#' ∧ ch ≠ byteOrderMark

section Advance

variable {c d : Cursor} {k : List Char} {n : Nat}

theorem skipSpaces_skipComment_eq_past (hr : c.rest = spaces n ++ k) (hk : AtToken k) :
    c.skipSpaces.skipComment = c.past (spaces n) := by
  have hspaces : c.skipSpaces = c.past (spaces n) :=
    Cursor.skipSpaces_eq_past hr fun hm => ne_space_of_isGap (hk ' ' hm).1 rfl
  rw [hspaces, Cursor.skipComment, Cursor.rest_past hr]
  split
  · exact absurd rfl (hk '#' rfl).2.1
  · rfl

theorem toToken_spaces (inFlow allowed : Bool) (hr : c.rest = spaces n ++ k) (hk : AtToken k) :
    toToken inFlow allowed c = (allowed, c.past (spaces n)) := by
  have hnone : (c.past (spaces n)).lineBreak? = none := by
    apply Cursor.lineBreak?_eq_none
    rw [Cursor.rest_past hr]
    exact fun ch hm => isBreak_eq_false_of_isGap (hk ch hm).1
  rw [toToken, skipSpaces_skipComment_eq_past hr hk]
  simp only [hnone]

/-- Outside of brackets a key may begin on a new line. -/
theorem toToken_fold (allowed : Bool) (hr : c.rest = fold n ++ k) (hk : AtToken k) :
    toToken false allowed c = (true, c.past (fold n)) := by
  have hskip : c.skipSpaces.skipComment = c := by
    have hspaces : c.skipSpaces = c := Cursor.skipSpaces_eq_past (n := 0) hr (by simp)
    rw [hspaces, Cursor.skipComment, hr]
    rfl
  have hbreak : c.lineBreak? = some ('\n', c.past ['\n']) := Cursor.lineBreak?_eq_past hr rfl
  have hrest : (c.past ['\n']).rest = spaces n ++ k := Cursor.rest_past_one hr
  have hlt : (c.past ['\n']).rest.length < c.rest.length := by
    rw [hrest, hr]
    exact Nat.lt_succ_self _
  rw [toToken, hskip]
  simp only [hbreak, hlt, dif_pos, toToken_spaces false _ hrest hk]
  simp [Cursor.past_fold]

variable {ts : List Token} {indent : Int} {outer : List Int}
variable {key key' : Option KeyStart} {allowed allowed' : Bool}

theorem advance_block (hm : c.rest.head? ≠ some byteOrderMark)
    (htoken : toToken false allowed c = (allowed', d)) :
    (block c ts indent outer key allowed).advance = (refreshKey d key).map fun key' =>
      (block d ts indent outer key' allowed').unwind d.column := by
  have hmark : (c.index == 0 && c.rest.head? == some byteOrderMark) = false := by
    simp [hm]
  cases hkey : refreshKey d key with
  | none => simp [advance, block, hmark, htoken, inFlow, moveTo, allowKey, refreshKeys, hkey]
  | some key' => simp [advance, block, hmark, htoken, inFlow, moveTo, allowKey, refreshKeys, hkey]

/-- A place on an earlier line, or none, is given up without an error where no key must begin
there. -/
def IsStale (key : Option KeyStart) (line : Nat) : Prop :=
  ∀ place ∈ key, place.required = false ∧ place.line < line

theorem refreshKey_of_isStale (h : IsStale key d.line) : refreshKey d key = some none := by
  cases key with
  | none => rfl
  | some place =>
      obtain ⟨hrequired, hline⟩ := h place rfl
      have hne : (place.line != d.line) = true := bne_iff_ne.mpr (Nat.ne_of_lt hline)
      simp [refreshKey, hrequired, hne]

/-- A node ends on its line, and the next token stands on the next one. -/
theorem advance_fold (hr : c.rest = fold n ++ k) (hk : AtToken k)
    (hkey : IsStale key (c.line + 1)) :
    (block c ts indent outer key allowed).advance =
      some ((block (c.past (fold n)) ts indent outer none true).unwind n) := by
  have hm : c.rest.head? ≠ some byteOrderMark := by
    rw [hr]
    exact fun h => absurd (Option.some.inj h) (by decide)
  have hstale : refreshKey (c.past (fold n)) key = some none := by
    apply refreshKey_of_isStale
    rwa [Cursor.line_past_fold]
  rw [advance_block hm (toToken_fold allowed hr hk), hstale, Option.map_some,
    Cursor.column_past_fold hr]

/-- The next token stands here. -/
theorem advance_token (hk : AtToken c.rest) :
    (block c ts indent outer key allowed).advance = (refreshKey c key).map fun key' =>
      (block c ts indent outer key' allowed).unwind c.column :=
  advance_block (fun hm => (hk _ hm).2.2 rfl) (toToken_spaces (n := 0) false allowed rfl hk)

/-- A node ends behind the line on which it began, at the next token. -/
theorem advance_here (hk : AtToken c.rest) (hkey : IsStale key c.line) :
    (block c ts indent outer key allowed).advance =
      some ((block c ts indent outer none allowed).unwind c.column) := by
  rw [advance_token hk, refreshKey_of_isStale hkey]
  rfl

/-- The next token stands on the same line behind spaces. -/
theorem advance_spaces (hr : c.rest = spaces n ++ k) (hk : AtToken k)
    (hkey : refreshKey (c.past (spaces n)) key = some key') (hindent : indent ≤ c.column) :
    (block c ts indent outer key allowed).advance =
      some (block (c.past (spaces n)) ts indent outer key' allowed) := by
  have hm : c.rest.head? ≠ some byteOrderMark := by
    rw [hr]
    cases n with
    | zero => exact fun h => (hk _ h).2.2 rfl
    | succ n => exact fun h => absurd (Option.some.inj h) (by decide)
  have hcolumn : c.column ≤ (c.past (spaces n)).column :=
    Cursor.column_le_past fun ch hs => mem_spaces hs ▸ rfl
  rw [advance_block hm (toToken_spaces false allowed hr hk), hkey, Option.map_some,
    unwind_of_le (by omega)]

end Advance

/-! ### One token after the other -/

/-- From the beginning of a token to the beginning of the next. -/
def Step (s t : Lexing) : Prop :=
  ∃ ch next u, s.cursor.rest = ch :: next ∧ s.readToken ch next = .ok u ∧
    u.cursor.rest.length < s.cursor.rest.length ∧ u.advance = some t

/-- From behind a token, over some others, to the beginning of one. -/
def Leads (s t : Lexing) : Prop := ∃ u, s.advance = some u ∧ Relation.ReflTransGen Step u t

theorem Leads.trans {s t u : Lexing} (h : s.Leads t) (hrest : Relation.ReflTransGen Step t u) :
    s.Leads u := by
  obtain ⟨v, hadvance, hsteps⟩ := h
  exact ⟨v, hadvance, hsteps.trans hrest⟩

/-- A token is read, and what follows leads on from behind it. -/
theorem Leads.behind {s t u : Lexing} {w : List Char} (h : u.Leads t)
    {ch : Char} {next : List Char} (hr : s.cursor.rest = ch :: next)
    (hread : s.readToken ch next = .ok u) (hpast : u.cursor = s.cursor.past w) (hw : w ≠ []) :
    Relation.ReflTransGen Step s t := by
  obtain ⟨v, hadvance, hsteps⟩ := h
  have hlt : u.cursor.rest.length < s.cursor.rest.length := by
    have hlength := List.length_pos_iff.mpr hw
    rw [hpast, Cursor.rest_past_drop, List.length_drop, hr, List.length_cons]
    omega
  exact .head ⟨ch, next, u, hr, hread, hlt, hadvance⟩ hsteps

/-! ### Where the reading stops -/

/-- The token that begins here cannot be read, or cannot be followed by another. -/
def Stuck (s : Lexing) : Prop :=
  ∃ ch next, s.cursor.rest = ch :: next ∧
    ((∃ e, s.readToken ch next = .error e) ∨ ∃ u, s.readToken ch next = .ok u ∧ u.advance = none)

/-- A relation to the state that is reached, if `p` holds, and else to one in between where the
reading stops. -/
structure Attains (R : Lexing → Lexing → Prop) (p : Prop) (s t : Lexing) : Prop where
  reaches : p → R s t
  stops : ¬p → ∃ u, R s u ∧ u.Stuck

section Attains

variable {R R' : Lexing → Lexing → Prop} {p q : Prop} {s s' t u : Lexing}

theorem Attains.of (h : R s t) : Attains R True s t := ⟨fun _ => h, fun hn => absurd trivial hn⟩

theorem Attains.imp (h : Attains R p s t) (himp : ∀ u, R s u → R' s' u) : Attains R' p s' t where
  reaches hp := himp t (h.reaches hp)
  stops hp := by
    obtain ⟨u, hu, hstuck⟩ := h.stops hp
    exact ⟨u, himp u hu, hstuck⟩

theorem Attains.advance (h : Attains (Relation.ReflTransGen Step) p s t)
    (hadvance : s'.advance = some s) : Attains Leads p s' t :=
  h.imp fun _ hu => ⟨s, hadvance, hu⟩

theorem Attains.behind {ch : Char} {next w : List Char} (h : Attains Leads p u t)
    (hr : s.cursor.rest = ch :: next) (hread : s.readToken ch next = .ok u)
    (hpast : u.cursor = s.cursor.past w) (hw : w ≠ []) :
    Attains (Relation.ReflTransGen Step) p s t :=
  h.imp fun _ hu => hu.behind hr hread hpast hw

theorem Attains.trans (h : Attains R p s t) (hrest : Attains R' q t u)
    (htrans : ∀ v, R s t → R' t v → R s v) : Attains R (p ∧ q) s u where
  reaches hpq := htrans u (h.reaches hpq.1) (hrest.reaches hpq.2)
  stops hpq := by
    by_cases hp : p
    · obtain ⟨v, hv, hstuck⟩ := hrest.stops fun hq => hpq ⟨hp, hq⟩
      exact ⟨v, htrans v (h.reaches hp) hv, hstuck⟩
    · exact h.stops hp

end Attains

/-! ### Runs -/

theorem cursor_refreshKeys {s t : Lexing} (h : s.refreshKeys = some t) : t.cursor = s.cursor := by
  simp only [refreshKeys, Option.bind_eq_bind, Option.bind_eq_some_iff, Option.pure_def,
    Option.some.injEq] at h
  obtain ⟨key, -, outerKeys, -, rfl⟩ := h
  rfl

theorem length_advance_le {s t : Lexing} (h : s.advance = some t) :
    t.cursor.rest.length ≤ s.cursor.rest.length := by
  simp only [advance, Option.bind_eq_bind, Option.bind_eq_some_iff, Option.pure_def,
    Option.some.injEq] at h
  obtain ⟨u, hu, rfl⟩ := h
  rw [cursor_unwind, cursor_refreshKeys hu]
  refine Nat.le_trans (length_toToken_le _ _ _) ?_
  split
  · exact Cursor.length_skip_le _ _
  · exact Nat.le_refl _

/-- What holds of every run that comes to a token next holds of all that lead there. -/
theorem Leads.prop_run {P : List Token → Prop} {s t : Lexing} (h : s.Leads t)
    (hend : ∀ u : Lexing, u.advance = some t → P u.run) : P s.run := by
  obtain ⟨v, hadvance, hsteps⟩ := h
  induction hsteps using Relation.ReflTransGen.head_induction_on generalizing s with
  | refl => exact hend s hadvance
  | head hstep _ ih =>
      obtain ⟨ch, next, w, hrest, htoken, hlt, hnext⟩ := hstep
      have hshorter : w.cursor.rest.length < s.cursor.rest.length :=
        Nat.lt_of_lt_of_le hlt (length_advance_le hadvance)
      rw [run, hadvance]
      simp only [hrest, htoken, hshorter, dif_pos]
      exact ih hnext

/-- The tokens that are found when a run comes to the end of the text. -/
theorem run_of_leads {s t u : Lexing} (h : s.Leads t) (hr : t.cursor.rest = [])
    (hend : t.finish = some u) : s.run = u.tokens.reverse := by
  refine h.prop_run (P := fun ts => ts = u.tokens.reverse) fun v hadvance => ?_
  rw [run, hadvance]
  simp only [hr, hend]

theorem exists_fault_mem_withFault (s : Lexing) (e : Fault) :
    ∃ e', Token.fault e' ∈ s.withFault e := by
  unfold withFault
  cases s.refreshKeys with
  | none => exact ⟨.malformed, List.mem_singleton_self _⟩
  | some t => exact ⟨e, List.mem_append_right _ (List.mem_singleton_self _)⟩

/-- A run that stops ends with a fault. -/
theorem exists_fault_mem_run {s t : Lexing} (h : s.Leads t) (ht : t.Stuck) :
    ∃ e, Token.fault e ∈ s.run := by
  refine h.prop_run (P := fun ts => ∃ e, Token.fault e ∈ ts) fun v hadvance => ?_
  obtain ⟨ch, next, hrest, ⟨e, hread⟩ | ⟨u, hread, hnone⟩⟩ := ht
  · rw [run, hadvance]
    simp only [hrest, hread]
    exact exists_fault_mem_withFault v e
  · rw [run, hadvance]
    simp only [hrest, hread]
    split
    · rw [run, hnone]
      exact exists_fault_mem_withFault u .malformed
    · exact exists_fault_mem_withFault v .malformed

end Lexing

end TaggedGrammar.Yaml
