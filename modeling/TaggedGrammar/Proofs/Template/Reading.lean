import Mathlib.Data.Set.Subsingleton
import TaggedGrammar.Proofs.Template.Piece

/-!
# What the reader of templates accepts

The reader takes one character after the other, and the number of brackets that are not
escaped is compared beforehand. `Scan.Holds` says which pieces stand behind the state of the
reader, `Scan.Counted` what the numbers of brackets have to do with it: they are equal exactly
when the last substitution is closed.

## Main statements

* `Scan.step_cases`: what one character can do.
* `Scan.inside_eq_false_iff`: what comparing the numbers of brackets is for.
* `exists_decomposes_of_parseChars`, `parseChars_of_decomposes`: what is read falls into
  pieces, and what falls into pieces is read.
* `parse_eq_ok_iff_decomposes`: both as one statement about templates.
-/

namespace TaggedGrammar.Template

/-! ### Brackets that are not escaped -/

theorem escapedCount_le_count (bracket : Char) (cs : List Char) :
    escapedCount bracket cs ≤ cs.count bracket := by
  fun_induction escapedCount bracket cs with
  | case1 => exact Nat.zero_le _
  | case2 c => exact Nat.zero_le _
  | case3 c d cs h ih =>
      obtain ⟨-, rfl⟩ := h
      have hd : (d :: cs).count d = cs.count d + 1 := List.count_cons_self
      have hc : (d :: cs).count d ≤ (c :: d :: cs).count d := List.count_le_count_cons
      omega
  | case4 c d cs h ih => exact ih.trans List.count_le_count_cons

theorem escapedCount_concat (bracket : Char) (hb : bracket ≠ '\\') (cs : List Char) (c : Char) :
    escapedCount bracket (cs ++ [c]) = escapedCount bracket cs +
      if c = bracket ∧ cs.getLast? = some '\\' then 1 else 0 := by
  fun_induction escapedCount bracket cs with
  | case1 => simp [escapedCount]
  | case2 d => simp [escapedCount, and_comm]
  | case3 d e cs h ih =>
      obtain ⟨rfl, rfl⟩ := h
      have hlast : ('\\' :: e :: cs).getLast? = some '\\' ↔ cs.getLast? = some '\\' := by
        cases cs with
        | nil => simpa using hb
        | cons f cs => simp
      rw [List.cons_append, List.cons_append, escapedCount, if_pos ⟨rfl, rfl⟩, ih]
      simp only [hlast]
      omega
  | case4 d e cs h ih =>
      rw [List.cons_append, List.cons_append, escapedCount, if_neg h, ← List.cons_append, ih,
        List.getLast?_cons_cons]

/-- A bracket counts where it stands behind no backslash. -/
theorem unescapedCount_concat (bracket : Char) (hb : bracket ≠ '\\') (cs : List Char)
    (c : Char) :
    unescapedCount bracket (cs ++ [c]) = unescapedCount bracket cs +
      if c = bracket ∧ cs.getLast? ≠ some '\\' then 1 else 0 := by
  have hle := escapedCount_le_count bracket cs
  unfold unescapedCount
  rw [escapedCount_concat bracket hb, List.count_append, List.count_singleton]
  by_cases hc : c = bracket
  · by_cases hl : cs.getLast? = some '\\'
    · simp only [hc, hl, beq_self_eq_true, if_true, and_self, ne_eq, not_true_eq_false,
        and_false, if_false]
      omega
    · simp only [hc, hl, beq_self_eq_true, if_true, and_false, if_false, ne_eq,
        not_false_eq_true, and_self]
      omega
  · simp [hc]

/-! ### One character -/

namespace Scan

theorem step_eq_push {s : Scan} {c : Char}
    (h : isBracket c = true → s.previous = some '\\' ∨ c = '<' ∧ s.inside = true) :
    s.step c = .ok (s.push c) := by
  unfold step
  split
  · rename_i hopen
    obtain ⟨rfl, hp, hi⟩ := hopen
    rcases h (by decide) with hp' | ⟨-, hi'⟩
    · exact absurd hp' hp
    · rw [hi] at hi'
      cases hi'
  · split
    · rename_i hclose
      obtain ⟨rfl, hp⟩ := hclose
      rcases h (by decide) with hp' | ⟨he, -⟩
      · exact absurd hp' hp
      · exact absurd he (by decide)
    · rfl

/-- A character opens a substitution, closes one, or is taken to the pending ones. -/
theorem step_cases {s t : Scan} {c : Char} (h : s.step c = .ok t) :
    (c = '<' ∧ s.previous ≠ some '\\' ∧ s.inside = false ∧ t = s.restart c s.flush true) ∨
    (c = '>' ∧ s.previous ≠ some '\\' ∧ s.inside = true ∧ ∃ b : Body, b.WellFormed ∧
      b.text = s.pending.reverse ∧ t = s.restart c (s.tokens ++ [b.token]) false) ∨
    ((isBracket c = true → s.previous = some '\\' ∨ c = '<' ∧ s.inside = true) ∧
      t = s.push c) := by
  unfold step at h
  split at h
  · rename_i hopen
    exact Or.inl ⟨hopen.1, hopen.2.1, hopen.2.2, (Except.ok.inj h).symm⟩
  · rename_i hopen
    split at h
    · rename_i hclose
      split at h
      · rename_i hi
        obtain ⟨token, htoken, rfl⟩ := Answer.map_eq_ok_iff.mp h
        obtain ⟨b, hb, htext, rfl⟩ := substitution_eq_ok_iff.mp htoken
        exact Or.inr (Or.inl ⟨hclose.1, hclose.2, hi, b, hb, htext, rfl⟩)
      · cases h
    · rename_i hclose
      refine Or.inr (Or.inr ⟨?_, (Except.ok.inj h).symm⟩)
      intro hc
      rcases isBracket_iff.mp hc with rfl | rfl
      · cases hi : s.inside with
        | true => exact Or.inr ⟨rfl, rfl⟩
        | false => exact Or.inl (not_not.mp fun hp => hopen ⟨rfl, hp, hi⟩)
      · exact Or.inl (not_not.mp fun hp => hclose ⟨rfl, hp⟩)

/-- What every character preserves holds after all of them. -/
theorem run_induction {P : Scan → List Char → Prop}
    (hstep : ∀ s seen c t, P s seen → s.step c = .ok t → P t (seen ++ [c])) {s t : Scan}
    {seen cs : List Char} (hs : P s seen) (h : s.run cs = .ok t) : P t (seen ++ cs) := by
  induction cs generalizing s seen with
  | nil =>
      obtain rfl := Except.ok.inj h
      rwa [List.append_nil]
  | cons c cs ih =>
      rw [run] at h
      split at h
      · rename_i next hnext
        have hcs := ih (hstep s seen c next hs hnext) h
        rwa [List.append_assoc] at hcs
      · cases h

/-! ### The numbers of brackets -/

/-- How the numbers of brackets that are not escaped follow the state. -/
structure Counted (s : Scan) (seen : List Char) : Prop where
  previous : s.previous = seen.getLast?
  outside : s.inside = false → unescapedCount '<' seen = unescapedCount '>' seen
  inside : s.inside = true → unescapedCount '>' seen < unescapedCount '<' seen
  /-- Each `<` behind the one that opened the substitution makes the difference larger. -/
  flat : s.inside = true → '<' ∉ s.pending →
    unescapedCount '<' seen = unescapedCount '>' seen + 1

theorem counted_initial : initial.Counted [] where
  previous := rfl
  outside _ := rfl
  inside h := nomatch h
  flat h := nomatch h

theorem Counted.open {s : Scan} {seen : List Char} (h : s.Counted seen)
    (hp : s.previous ≠ some '\\') (hi : s.inside = false) :
    (s.restart '<' s.flush true).Counted (seen ++ ['<']) := by
  have hlt := unescapedCount_concat '<' (by decide) seen '<'
  have hgt := unescapedCount_concat '>' (by decide) seen '<'
  rw [← h.previous, if_pos ⟨rfl, hp⟩] at hlt
  rw [if_neg fun he => absurd he.1 (by decide)] at hgt
  have hbefore := h.outside hi
  constructor
  · exact List.getLast?_concat.symm
  · intro hi'
    cases hi'
  · intro _
    omega
  · intro _ _
    omega

theorem Counted.close {s : Scan} {seen : List Char} (h : s.Counted seen)
    (hp : s.previous ≠ some '\\') (hi : s.inside = true) (hflat : '<' ∉ s.pending)
    (tokens : List Token) : (s.restart '>' tokens false).Counted (seen ++ ['>']) := by
  have hlt := unescapedCount_concat '<' (by decide) seen '>'
  have hgt := unescapedCount_concat '>' (by decide) seen '>'
  rw [if_neg fun he => absurd he.1 (by decide)] at hlt
  rw [← h.previous, if_pos ⟨rfl, hp⟩] at hgt
  have hbefore := h.flat hi hflat
  constructor
  · exact List.getLast?_concat.symm
  · intro _
    omega
  · intro hi'
    cases hi'
  · intro hi'
    cases hi'

theorem Counted.push {s : Scan} {seen : List Char} {c : Char} (h : s.Counted seen)
    (hc : isBracket c = true → s.previous = some '\\' ∨ c = '<' ∧ s.inside = true) :
    (s.push c).Counted (seen ++ [c]) := by
  have hlt := unescapedCount_concat '<' (by decide) seen c
  have hgt : unescapedCount '>' (seen ++ [c]) = unescapedCount '>' seen := by
    rw [unescapedCount_concat '>' (by decide), ← h.previous, if_neg]
    · rfl
    · rintro ⟨rfl, hp⟩
      rcases hc (by decide) with hp' | ⟨he, -⟩
      · exact hp hp'
      · exact absurd he (by decide)
  rw [← h.previous] at hlt
  constructor
  · exact List.getLast?_concat.symm
  · intro (hi : s.inside = false)
    have hbefore := h.outside hi
    rw [if_neg] at hlt
    · omega
    · rintro ⟨rfl, hp⟩
      rcases hc (by decide) with hp' | ⟨-, hi'⟩
      · exact hp hp'
      · rw [hi] at hi'
        cases hi'
  · intro (hi : s.inside = true)
    have hbefore := h.inside hi
    omega
  · intro (hi : s.inside = true) hflat
    have hbefore := h.flat hi fun hm => hflat (List.mem_cons_of_mem c hm)
    rw [if_neg] at hlt
    · omega
    · rintro ⟨rfl, -⟩
      exact hflat List.mem_cons_self

theorem counted_of_run {s : Scan} {cs : List Char} (h : initial.run cs = .ok s) :
    s.Counted cs := by
  refine run_induction (P := Counted) ?_ counted_initial h
  intro s seen c t hs hc
  rcases step_cases hc with ⟨rfl, hp, hi, rfl⟩ | ⟨rfl, hp, hi, b, hb, htext, rfl⟩ | ⟨hpush, rfl⟩
  · exact hs.open hp hi
  · have hflat : '<' ∉ s.pending := by
      rw [← List.mem_reverse, ← htext]
      exact Body.not_mem_text hb (Or.inl rfl)
    exact hs.close hp hi hflat _
  · exact hs.push hpush

/-- The last substitution is closed exactly if as many brackets of both kinds are not
escaped. -/
theorem inside_eq_false_iff {s : Scan} {cs : List Char} (h : initial.run cs = .ok s) :
    s.inside = false ↔ unescapedCount '<' cs = unescapedCount '>' cs := by
  have hcounted := counted_of_run h
  constructor
  · exact hcounted.outside
  · intro he
    cases hi : s.inside with
    | false => rfl
    | true => exact absurd he.symm (hcounted.inside hi).ne

/-! ### The pieces behind a state -/

/-- The pieces that are complete, with the pending characters as a run or as the beginning of
a body. -/
structure Holds (s : Scan) (seen : List Char) (ps : List Piece) : Prop where
  tokens : s.tokens = ps.map Piece.token
  wellFormed : ∀ p ∈ ps, p.WellFormed
  /-- A backslash can only be the last character if it is pending. -/
  previous : s.previous = some '\\' ↔ s.pending.head? = some '\\'
  outside : s.inside = false → seen = ps.flatMap Piece.text ++ s.pending.reverse ∧
    Escaped s.pending.reverse ∧ ∀ cs, (ps ++ [Piece.run cs]).IsChain Piece.MayPrecede
  inside : s.inside = true → seen = ps.flatMap Piece.text ++ '<' :: s.pending.reverse ∧
    ∀ b, (ps ++ [Piece.substitution b]).IsChain Piece.MayPrecede

theorem holds_initial : initial.Holds [] [] where
  tokens := rfl
  wellFormed p hp := nomatch hp
  previous := by decide
  outside _ := ⟨rfl, escaped_nil, fun _ => .singleton _⟩
  inside h := nomatch h

theorem Holds.push {s : Scan} {seen : List Char} {ps : List Piece} {c : Char}
    (h : s.Holds seen ps)
    (hc : isBracket c = true → s.previous = some '\\' ∨ c = '<' ∧ s.inside = true) :
    (s.push c).Holds (seen ++ [c]) ps := by
  constructor
  · exact h.tokens
  · exact h.wellFormed
  · simp [Scan.push]
  · intro (hi : s.inside = false)
    obtain ⟨hseen, hescaped, hchain⟩ := h.outside hi
    have hpending : (s.push c).pending.reverse = s.pending.reverse ++ [c] := by
      simp [Scan.push]
    rw [hpending]
    refine ⟨by rw [hseen, List.append_assoc], escaped_concat_iff.mpr ⟨hescaped, ?_⟩, hchain⟩
    intro hb
    rcases hc hb with hp | ⟨-, hi'⟩
    · rw [List.getLast?_reverse]
      exact h.previous.mp hp
    · rw [hi] at hi'
      cases hi'
  · intro (hi : s.inside = true)
    obtain ⟨hseen, hchain⟩ := h.inside hi
    refine ⟨?_, hchain⟩
    rw [hseen]
    simp [Scan.push]

/-- The pieces when the pending characters are taken as a run. -/
def flushed (s : Scan) (ps : List Piece) : List Piece :=
  if s.pending.isEmpty then ps else ps ++ [Piece.run s.pending.reverse]

/-- Outside of substitutions the characters seen fall into pieces. -/
theorem Holds.decomposes {s : Scan} {seen : List Char} {ps : List Piece} (h : s.Holds seen ps)
    (hi : s.inside = false) :
    Decomposes (s.flushed ps) seen ∧ s.flush = (s.flushed ps).map Piece.token := by
  obtain ⟨rfl, hescaped, hchain⟩ := h.outside hi
  unfold flushed flush
  split
  · rename_i he
    rw [List.isEmpty_iff.mp he, List.reverse_nil, List.append_nil]
    exact ⟨⟨h.wellFormed, (hchain []).left_of_append, rfl⟩, h.tokens⟩
  · rename_i he
    have hne : s.pending.reverse ≠ [] := by simpa using he
    refine ⟨⟨?_, hchain _, by simp [Piece.text]⟩, ?_⟩
    · intro p hp
      rcases List.mem_append.mp hp with hp | hp
      · exact h.wellFormed p hp
      · obtain rfl := List.mem_singleton.mp hp
        exact ⟨hne, hescaped⟩
    · rw [List.map_append, h.tokens, literal_eq_token]
      rfl

theorem Holds.open {s : Scan} {seen : List Char} {ps : List Piece} (h : s.Holds seen ps)
    (hp : s.previous ≠ some '\\') (hi : s.inside = false) :
    (s.restart '<' s.flush true).Holds (seen ++ ['<']) (s.flushed ps) := by
  obtain ⟨hd, hflush⟩ := h.decomposes hi
  constructor
  · exact hflush
  · exact hd.wellFormed
  · exact iff_of_false (by simp [restart]) (by simp [restart])
  · intro hi'
    cases hi'
  · intro _
    refine ⟨by rw [hd.text]; rfl, ?_⟩
    intro b
    refine List.isChain_append.mpr ⟨hd.chain, .singleton _, ?_⟩
    rintro p hlast q hq
    obtain rfl : Piece.substitution b = q := by simpa using hq
    unfold flushed at hlast
    split at hlast
    · obtain ⟨-, -, hchain⟩ := h.outside hi
      have hp' := (List.isChain_append.mp (hchain [])).2.2 p hlast _ rfl
      cases p with
      | run cs => exact absurd hp' id
      | substitution b' => trivial
    · obtain rfl : Piece.run s.pending.reverse = p := by simpa using hlast
      intro hbackslash
      rw [List.getLast?_reverse] at hbackslash
      exact hp (h.previous.mpr hbackslash)

theorem Holds.close {s : Scan} {seen : List Char} {ps : List Piece} {b : Body}
    (h : s.Holds seen ps) (hi : s.inside = true) (hb : b.WellFormed)
    (htext : b.text = s.pending.reverse) :
    (s.restart '>' (s.tokens ++ [b.token]) false).Holds (seen ++ ['>'])
      (ps ++ [.substitution b]) := by
  obtain ⟨hseen, hchain⟩ := h.inside hi
  constructor
  · rw [List.map_append, ← h.tokens]
    rfl
  · intro p hp
    rcases List.mem_append.mp hp with hp | hp
    · exact h.wellFormed p hp
    · obtain rfl := List.mem_singleton.mp hp
      exact hb
  · exact iff_of_false (by simp [restart]) (by simp [restart])
  · intro _
    refine ⟨by simp [hseen, restart, Piece.text, htext], escaped_nil, ?_⟩
    intro cs
    refine List.isChain_append.mpr ⟨hchain b, .singleton _, ?_⟩
    rintro p hlast q -
    obtain rfl : Piece.substitution b = p := by simpa using hlast
    trivial
  · intro hi'
    cases hi'

theorem Holds.exists_step {s t : Scan} {seen : List Char} {ps : List Piece} {c : Char}
    (h : s.Holds seen ps) (hc : s.step c = .ok t) : ∃ qs, t.Holds (seen ++ [c]) qs := by
  rcases step_cases hc with ⟨rfl, hp, hi, rfl⟩ | ⟨rfl, -, hi, b, hb, htext, rfl⟩ | ⟨hpush, rfl⟩
  · exact ⟨_, h.open hp hi⟩
  · exact ⟨_, h.close hi hb htext⟩
  · exact ⟨ps, h.push hpush⟩

theorem holds_of_run {s : Scan} {cs : List Char} (h : initial.run cs = .ok s) :
    ∃ ps, s.Holds cs ps := by
  refine run_induction (P := fun s seen => ∃ ps, s.Holds seen ps) ?_ ⟨[], holds_initial⟩ h
  rintro s seen c t ⟨ps, hs⟩ hc
  exact hs.exists_step hc

/-! ### Reading pieces -/

theorem foldl_push (s : Scan) (cs : List Char) : cs.foldl push s =
    ⟨s.tokens, s.inside, s.start, cs.reverse ++ s.pending, s.position + cs.length,
      cs.getLast?.or s.previous⟩ := by
  induction cs generalizing s with
  | nil => rfl
  | cons c cs ih =>
      rw [List.foldl_cons, ih, List.getLast?_cons]
      cases hl : cs.getLast? with
      | none => simp [push, Nat.add_comm, Nat.add_left_comm]
      | some d => simp [push, Nat.add_comm, Nat.add_left_comm]

/-- Characters that are no brackets of their own are all taken to the pending ones. -/
theorem run_eq_foldl_push {s : Scan} {cs : List Char} (h : Escaped cs) :
    s.run cs = .ok (cs.foldl push s) := by
  induction cs using List.reverseRecOn with
  | nil => rfl
  | append_singleton cs c ih =>
      obtain ⟨hcs, hc⟩ := escaped_concat_iff.mp h
      rw [run_append, ih hcs, List.foldl_append]
      have hpush : (cs.foldl push s).step c = .ok ((cs.foldl push s).push c) := by
        refine step_eq_push fun hb => Or.inl ?_
        rw [foldl_push, hc hb]
        rfl
      change run _ [c] = _
      rw [run, hpush]
      rfl

/-- A substitution is read up to its closing bracket. -/
theorem run_substitution {s : Scan} {b : Body} (hi : s.inside = false)
    (hp : s.previous ≠ some '\\') (hb : b.WellFormed) :
    ∃ t, s.run (Piece.substitution b).text = .ok t ∧ t.inside = false ∧
      t.pending = [] ∧ t.previous = some '>' ∧ t.tokens = s.flush ++ [b.token] := by
  have hopen : s.step '<' = .ok (s.restart '<' s.flush true) := if_pos ⟨rfl, hp, hi⟩
  -- The state before the closing bracket.
  let t := b.text.foldl push (s.restart '<' s.flush true)
  have ht : t = ⟨s.flush, true, s.position + 1, b.text.reverse, s.position + 1 + b.text.length,
      b.text.getLast?.or (some '<')⟩ := by
    simp only [t, foldl_push, restart, List.append_nil]
  have hprevious : t.previous ≠ some '\\' := by
    rw [ht]
    cases hl : b.text.getLast? with
    | none => exact fun he => absurd (Option.some.inj he) (by decide)
    | some c =>
        intro he
        obtain rfl : c = '\\' := Option.some.inj he
        exact Body.not_mem_text hb (Or.inr (Or.inr rfl)) (List.mem_of_getLast? hl)
  have hclose : t.step '>' = .ok (t.restart '>' (s.flush ++ [b.token]) false) := by
    have htokens : t.tokens = s.flush := by rw [ht]
    have hbody : t.pending.reverse = b.text := by rw [ht, List.reverse_reverse]
    have hinside : t.inside = true := by rw [ht]
    unfold step
    rw [if_neg fun he => absurd he.1 (by decide), if_pos ⟨rfl, hprevious⟩, if_pos hinside,
      hbody, substitution_text hb, htokens]
    rfl
  refine ⟨t.restart '>' (s.flush ++ [b.token]) false, ?_, rfl, rfl, rfl, rfl⟩
  rw [Piece.text, run, hopen]
  change run _ (b.text ++ ['>']) = _
  rw [run_append, run_eq_foldl_push (Body.escaped_text hb)]
  change run t ['>'] = _
  rw [run, hclose]
  rfl

/-- Whether a piece may be read next. -/
def Awaits (s : Scan) : Piece → Prop
  | .run _ => s.pending = []
  | .substitution _ => s.previous ≠ some '\\'

/-- A run is taken to the pending characters, and a substitution may follow it. -/
theorem run_run {s : Scan} {cs : List Char} (hi : s.inside = false) (hs : s.pending = [])
    (hcs : (Piece.run cs).WellFormed) :
    ∃ t, s.run cs = .ok t ∧ t.inside = false ∧ t.previous = cs.getLast? ∧
      t.flush = s.flush ++ [(Piece.run cs).token] := by
  obtain ⟨hne, hescaped⟩ := hcs
  refine ⟨cs.foldl push s, run_eq_foldl_push hescaped, ?_, ?_, ?_⟩
  · rw [foldl_push]
    exact hi
  · obtain ⟨c, hc⟩ := Option.isSome_iff_exists.mp (List.getLast?_isSome.mpr hne)
    rw [foldl_push, hc]
    rfl
  · simp [foldl_push, flush, hs, hne, literal_eq_token]

/-- A piece gives its token, and what may stand behind it may be read next. -/
theorem run_piece {s : Scan} {p : Piece} (hi : s.inside = false) (hs : s.Awaits p)
    (hp : p.WellFormed) :
    ∃ t, s.run p.text = .ok t ∧ t.inside = false ∧ t.flush = s.flush ++ [p.token] ∧
      ∀ q, p.MayPrecede q → t.Awaits q := by
  cases p with
  | run cs =>
      obtain ⟨t, hrun, hti, htp, htflush⟩ := run_run hi hs hp
      refine ⟨t, hrun, hti, htflush, ?_⟩
      intro q hq
      cases q with
      | run ds => exact absurd hq id
      | substitution b =>
          intro he
          exact hq (htp.symm.trans he)
  | substitution b =>
      obtain ⟨t, hrun, hti, htp, htprevious, httokens⟩ := run_substitution hi hs hp
      refine ⟨t, hrun, hti, ?_, ?_⟩
      · rw [flush, htp]
        exact httokens
      · intro q _
        cases q with
        | run ds => exact htp
        | substitution b' =>
            intro he
            rw [htprevious] at he
            exact absurd he (by decide)

/-- Pieces are read one after the other, and each gives its token. -/
theorem run_pieces {s : Scan} {ps : List Piece} (hi : s.inside = false)
    (hs : ∀ p ∈ ps.head?, s.Awaits p) (hwell : ∀ p ∈ ps, p.WellFormed)
    (hchain : ps.IsChain Piece.MayPrecede) :
    ∃ t, s.run (ps.flatMap Piece.text) = .ok t ∧ t.inside = false ∧
      t.flush = s.flush ++ ps.map Piece.token := by
  induction ps generalizing s with
  | nil => exact ⟨s, rfl, hi, (List.append_nil _).symm⟩
  | cons p ps ih =>
      obtain ⟨hnext, htail⟩ := List.isChain_cons.mp hchain
      obtain ⟨t, hrun, hti, htflush, htnext⟩ :=
        run_piece hi (hs p rfl) (hwell p List.mem_cons_self)
      have hps : ∀ q ∈ ps, q.WellFormed := fun q hq => hwell q (List.mem_cons_of_mem p hq)
      obtain ⟨u, hrest, hui, huflush⟩ := ih hti (fun q hq => htnext q (hnext q hq)) hps htail
      refine ⟨u, ?_, hui, ?_⟩
      · rw [List.flatMap_cons, run_append, hrun]
        exact hrest
      · rw [huflush, htflush, List.append_assoc]
        rfl

end Scan

/-! ### Whole templates -/

theorem parseChars_of_ne_nil {cs : List Char} (h : cs ≠ []) :
    parseChars cs =
      if unescapedCount '<' cs ≠ unescapedCount '>' cs then .error (.whole .unbalancedBrackets)
      else (Scan.initial.run cs).map Scan.flush :=
  if_neg (by simpa using h)

/-- What is read has been taken to its end, outside of substitutions. -/
theorem exists_run_of_parseChars {cs : List Char} {tokens : List Token}
    (h : parseChars cs = .ok tokens) :
    cs ≠ [] ∧ ∃ s, Scan.initial.run cs = .ok s ∧ s.inside = false ∧ s.flush = tokens := by
  by_cases hne : cs = []
  · rw [hne] at h
    cases h
  · rw [parseChars_of_ne_nil hne] at h
    split at h
    · cases h
    · rename_i hcount
      obtain ⟨s, hrun, hflush⟩ := Answer.map_eq_ok_iff.mp h
      exact ⟨hne, s, hrun, (Scan.inside_eq_false_iff hrun).mpr (not_not.mp hcount), hflush⟩

theorem exists_decomposes_of_parseChars {cs : List Char} {tokens : List Token}
    (h : parseChars cs = .ok tokens) :
    ∃ ps, ps ≠ [] ∧ Decomposes ps cs ∧ tokens = ps.map Piece.token := by
  obtain ⟨hne, s, hrun, hi, rfl⟩ := exists_run_of_parseChars h
  obtain ⟨ps, hs⟩ := Scan.holds_of_run hrun
  obtain ⟨hd, hflush⟩ := hs.decomposes hi
  refine ⟨s.flushed ps, ?_, hd, hflush⟩
  intro hnil
  apply hne
  rw [← hd.text, hnil]
  rfl

theorem parseChars_of_decomposes {cs : List Char} {ps : List Piece} (hne : ps ≠ [])
    (h : Decomposes ps cs) : parseChars cs = .ok (ps.map Piece.token) := by
  have hcs : cs ≠ [] := by
    cases ps with
    | nil => exact absurd rfl hne
    | cons p ps => exact h.text_ne_nil
  have hfirst : ∀ p ∈ ps.head?, Scan.initial.Awaits p := by
    intro p _
    cases p with
    | run ds => rfl
    | substitution b => exact fun he => nomatch he
  obtain ⟨s, hrun, hi, hflush⟩ := Scan.run_pieces rfl hfirst h.wellFormed h.chain
  rw [h.text] at hrun
  have hcount := (Scan.inside_eq_false_iff hrun).mp hi
  rw [parseChars_of_ne_nil hcs, if_neg (not_not.mpr hcount), hrun]
  exact congrArg Except.ok hflush

/-- A template is read exactly if it is a sequence of one or more pieces, each of which may
stand where it does. There is only one such sequence, and the tokens are those of its
pieces. -/
theorem parse_eq_ok_iff_decomposes (template : String) :
    (∀ tokens, parse template = .ok tokens ↔
      ∃ ps, ps ≠ [] ∧ Decomposes ps template.toList ∧ tokens = ps.map Piece.token) ∧
    {ps | Decomposes ps template.toList}.Subsingleton := by
  refine ⟨fun tokens => ⟨exists_decomposes_of_parseChars, ?_⟩, ?_⟩
  · rintro ⟨ps, hne, hd, rfl⟩
    exact parseChars_of_decomposes hne hd
  · intro ps hp qs hq
    exact hp.unique hq

end TaggedGrammar.Template
