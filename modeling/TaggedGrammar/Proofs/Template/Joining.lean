import TaggedGrammar.Proofs.Template.Position
import TaggedGrammar.Proofs.Template.Printing

/-!
# Templates behind each other

A template that is read and does not end in a backslash may be put before any other text. Reading
goes on behind it as it does from the beginning: the same tokens follow, except that a literal at
the cut is one with a literal before it, or the same error comes, as much further to the right as
the first template is long.

## Main statements

* `substitution_shift`: a body is read alike at every position.
* `Scan.step_join`, `Scan.run_join`: the reader behind a template that is complete does what it
  does from the beginning.
* `unescapedCount_append`: the brackets that are not escaped are counted on both sides of a cut.
* `parse_append`: reading both templates as one.
-/

namespace TaggedGrammar

/-! ### Errors further to the right -/

/-- The place in a text that has `n` more characters before it. -/
def Place.shift (n : Nat) : Place → Place
  | span first last => span (n + first) (n + last)
  | nowhere last => nowhere last

/-- The error in a text that has `n` more characters before it. -/
def ParseError.shift (n : Nat) (e : ParseError) : ParseError := ⟨e.defect, e.place.shift n⟩

@[simp] theorem ParseError.shift_within (n : Nat) (defect : Defect) (first last : Nat) :
    (within defect first last).shift n = within defect (n + first) (n + last) := by
  simp [within, shift, Place.shift]

@[simp] theorem ParseError.shift_whole (n : Nat) (defect : Defect) :
    (whole defect).shift n = whole defect := rfl

namespace Template

open Text

theorem mapError_shift_within {α : Type} (n : Nat) (defect : Defect) (first last : Nat) :
    (Except.error (.within defect first last) : Except ParseError α).mapError
        (ParseError.shift n) =
      .error (.within defect (n + first) (n + last)) :=
  congrArg Except.error (ParseError.shift_within n defect first last)

theorem range_shift (cs : List Char) (first last n : Nat) :
    range cs (n + first) (n + last) =
      (range cs first last).mapError (ParseError.shift n) := by
  unfold range
  split
  · rfl
  · rw [mapError_shift_within]

theorem plainSubstitution_shift (body : List Char) (first n : Nat) :
    plainSubstitution body (n + first) =
      (plainSubstitution body first).mapError (ParseError.shift n) := by
  have hlast : n + first + body.length = n + (first + body.length) := Nat.add_assoc _ _ _
  unfold plainSubstitution
  rw [hlast]
  split
  · rw [mapError_shift_within, Nat.add_assoc]
  · rename_i rest
    split
    · cases assignment rest with
      | ok token => rfl
      | error d => exact (mapError_shift_within n d first _).symm
    · rw [mapError_shift_within]
  · split
    · rfl
    · rw [mapError_shift_within]
  · split
    · rfl
    · rw [mapError_shift_within]
  · split
    · exact range_shift _ _ _ _
    · rw [mapError_shift_within]
  · split
    · rfl
    · rw [mapError_shift_within]

/-- The parts of a body that begins `n` characters further to the right. -/
def CommandParts.shift (n : Nat) (parts : CommandParts) : CommandParts :=
  ⟨parts.command, parts.inner, n + parts.first⟩

theorem command_shift (body : List Char) (first n : Nat) :
    command body (n + first) =
      ((command body first).map (CommandParts.shift n)).mapError (ParseError.shift n) := by
  have hlast : n + first + body.length = n + (first + body.length) := Nat.add_assoc _ _ _
  unfold command
  simp only [hlast]
  split
  · simp only [Except.map, mapError_shift_within, Nat.add_assoc]
  · split
    · simp only [Except.map, mapError_shift_within]
    · split
      · simp only [Except.map, mapError_shift_within]
      · split
        · simp only [Except.map, mapError_shift_within, Nat.add_assoc]
        · simp only [Except.map, Except.mapError, CommandParts.shift, Nat.add_assoc]

/-- A body is read alike at every position. -/
theorem substitution_shift (body : List Char) (first n : Nat) :
    substitution body (n + first) =
      (substitution body first).mapError (ParseError.shift n) := by
  fun_induction substitution body first with
  | case1 body first hb =>
      rw [substitution, if_pos hb]
      exact plainSubstitution_shift body first n
  | case2 body first hb hc =>
      rw [substitution, if_neg hb, if_pos hc, mapError_shift_within, Nat.add_assoc]
  | case3 body first hb hc e he =>
      have hshift : command body (n + first) = .error (e.shift n) := by
        rw [command_shift, he]
        rfl
      rw [substitution, if_neg hb, if_neg hc]
      split
      · rename_i e' he'
        rw [hshift] at he'
        exact congrArg Except.error (Except.error.inj he').symm
      · rename_i parts' he'
        rw [hshift] at he'
        cases he'
  | case4 body first hb hc parts hp hlt ih =>
      have hshift : command body (n + first) = .ok (parts.shift n) := by
        rw [command_shift, hp]
        rfl
      rw [substitution, if_neg hb, if_neg hc]
      split
      · rename_i e' he'
        rw [hshift] at he'
        cases he'
      · rename_i parts' he'
        obtain rfl := Except.ok.inj (hshift.symm.trans he')
        change (substitution parts.inner (n + parts.first)).map _ = _
        rw [ih]
        cases substitution parts.inner parts.first with
        | ok token => rfl
        | error e => rfl

/-! ### Counting and unescaping on both sides of a cut -/

/-- A bracket behind the cut is escaped by no backslash before it. -/
theorem unescapedCount_append {bracket : Char} (hb : bracket ≠ '\\') {cs : List Char}
    (h : cs.getLast? ≠ some '\\') (ds : List Char) :
    unescapedCount bracket (cs ++ ds) =
      unescapedCount bracket cs + unescapedCount bracket ds := by
  induction ds using List.reverseRecOn with
  | nil => simp [unescapedCount, escapedCount]
  | append_singleton ds d ih =>
      have hlast : (cs ++ ds).getLast? ≠ some '\\' ↔ ds.getLast? ≠ some '\\' := by
        cases hds : ds.getLast? with
        | none => simp [List.getLast?_append, hds, h]
        | some c => simp [List.getLast?_append, hds]
      rw [← List.append_assoc, unescapedCount_concat bracket hb, unescapedCount_concat bracket hb,
        ih]
      simp only [hlast, Nat.add_assoc]

theorem plain_append {cs : List Char} (h : cs.getLast? ≠ some '\\') (ds : List Char) :
    plain (cs ++ ds) = plain cs ++ plain ds := by
  induction cs with
  | nil => rfl
  | cons c cs ih =>
      cases cs with
      | nil =>
          have hc : c ≠ '\\' := by simpa using h
          rw [List.singleton_append, plain, if_neg fun he => hc he.1, plain,
            if_neg fun he => hc he.1]
          rfl
      | cons d cs =>
          rw [List.getLast?_cons_cons] at h
          have hrest := ih h
          by_cases hc : c = '\\' ∧ (d :: cs).head?.any isBracket = true
          · have hleft : plain (c :: (d :: cs ++ ds)) = plain (d :: cs ++ ds) := if_pos hc
            have hright : plain (c :: d :: cs) = plain (d :: cs) := if_pos hc
            rw [List.cons_append, hleft, hright, hrest]
          · have hleft : plain (c :: (d :: cs ++ ds)) = c :: plain (d :: cs ++ ds) := if_neg hc
            have hright : plain (c :: d :: cs) = c :: plain (d :: cs) := if_neg hc
            rw [List.cons_append, hleft, hright, hrest, List.cons_append]

/-- The literal of two runs that meet. -/
theorem literal_append {cs : List Char} (h : cs.getLast? ≠ some '\\') (ds : List Char) :
    literal (cs ++ ds) =
      .literal (String.ofList (unescape cs) ++ String.ofList (unescape ds)) := by
  rw [literal, unescape_eq_plain, unescape_eq_plain, unescape_eq_plain, plain_append h,
    String.ofList_append]

/-! ### Tokens on both sides of a cut -/

/-- Tokens behind each other, where a literal that comes behind a literal is put into it. -/
def joinTokens (ts us : List Token) : List Token :=
  match ts.getLast?, us with
  | some (.literal text), .literal text' :: rest =>
    ts.dropLast ++ .literal (text ++ text') :: rest
  | _, _ => ts ++ us

@[simp] theorem joinTokens_nil (ts : List Token) : joinTokens ts [] = ts := by
  simp [joinTokens]

theorem joinTokens_literal (ts : List Token) (text text' : String) (us : List Token) :
    joinTokens (ts ++ [.literal text]) (.literal text' :: us) =
      ts ++ .literal (text ++ text') :: us := by
  simp [joinTokens]

/-- Behind a token that is no literal nothing is merged. -/
theorem joinTokens_of_getLast? {ts : List Token}
    (h : ∀ text, ts.getLast? ≠ some (.literal text)) (us : List Token) :
    joinTokens ts us = ts ++ us := by
  unfold joinTokens
  split
  · rename_i hlast
    exact absurd hlast (h _)
  · rfl

/-- Before a token that is no literal nothing is merged. -/
theorem joinTokens_of_ne {u : Token} (h : ∀ text, u ≠ .literal text) (ts us : List Token) :
    joinTokens ts (u :: us) = ts ++ u :: us := by
  unfold joinTokens
  split
  · rename_i heq
    exact absurd (List.cons.inj heq).1 (h _)
  · rfl

theorem joinTokens_append (ts : List Token) {us : List Token} (h : us ≠ []) (vs : List Token) :
    joinTokens ts (us ++ vs) = joinTokens ts us ++ vs := by
  cases us with
  | nil => exact absurd rfl h
  | cons u us =>
      unfold joinTokens
      split <;> simp_all

/-! ### The reader behind a template -/

namespace Scan

/-- The characters seen are a template that is complete, and do not end in a backslash. -/
structure Rests (s : Scan) : Prop where
  inside : s.inside = false
  previous : s.previous ≠ some '\\'
  pending : s.pending.reverse.getLast? ≠ some '\\'
  /-- A literal behind a literal would be part of it. -/
  tokens : s.pending = [] → ∀ text, s.tokens.getLast? ≠ some (.literal text)

/-- Whether no bracket has opened a substitution. -/
def isFresh (s : Scan) : Bool := s.tokens.isEmpty && !s.inside

/-- The state behind the characters of both states. Up to the first bracket that opens a
substitution, the characters are part of the run that is pending in the first state. -/
def join (s t : Scan) : Scan where
  tokens := if t.isFresh then s.tokens else joinTokens s.flush t.tokens
  inside := t.inside
  start := if t.isFresh then s.start else s.position + t.start
  pending := if t.isFresh then t.pending ++ s.pending else t.pending
  position := s.position + t.position
  previous := t.previous.or s.previous

theorem join_of_fresh (s : Scan) {t : Scan} (h : t.isFresh = true) :
    s.join t = ⟨s.tokens, t.inside, s.start, t.pending ++ s.pending, s.position + t.position,
      t.previous.or s.previous⟩ := by
  simp [join, h]

theorem join_of_not_fresh (s : Scan) {t : Scan} (h : t.isFresh = false) :
    s.join t = ⟨joinTokens s.flush t.tokens, t.inside, s.position + t.start, t.pending,
      s.position + t.position, t.previous.or s.previous⟩ := by
  simp [join, h]

theorem rests_of_run {s : Scan} {cs : List Char} (h : initial.run cs = .ok s)
    (hi : s.inside = false) (hlast : cs.getLast? ≠ some '\\') : s.Rests := by
  obtain ⟨ps, hs⟩ := holds_of_run h
  have hprevious : s.previous ≠ some '\\' := by
    rw [(counted_of_run h).previous]
    exact hlast
  constructor
  · exact hi
  · exact hprevious
  · rw [List.getLast?_reverse]
    intro hp
    exact hprevious (hs.previous.mpr hp)
  · intro _ text htext
    obtain ⟨-, -, hchain⟩ := hs.outside hi
    rw [hs.tokens, List.getLast?_map] at htext
    obtain ⟨p, hp, hliteral⟩ := Option.map_eq_some_iff.mp htext
    have hmay := (List.isChain_append.mp (hchain [])).2.2 p hp _ rfl
    cases p with
    | run ds => exact hmay
    | substitution b =>
        have hb : b.token.IsSubstitution :=
          Body.isSubstitution_token (hs.wellFormed _ (List.mem_of_getLast? hp))
        rw [show b.token = .literal text from hliteral] at hb
        exact hb

theorem join_initial {s : Scan} (hs : s.Rests) : s.join initial = s := by
  have hi := hs.inside
  cases s
  simp_all [join, isFresh, initial]

theorem join_previous_iff {s : Scan} (hs : s.Rests) (t : Scan) :
    (s.join t).previous = some '\\' ↔ t.previous = some '\\' := by
  cases hp : t.previous with
  | none => simp [join, hp, hs.previous]
  | some c => simp [join, hp]

theorem flush_of_eq_nil {s : Scan} (h : s.pending = []) : s.flush = s.tokens := by
  simp [flush, h]

theorem flush_of_ne_nil {s : Scan} (h : s.pending ≠ []) :
    s.flush = s.tokens ++ [literal s.pending.reverse] := by
  simp [flush, h]

/-- Before the first substitution the pending characters are put behind those of a run. -/
theorem flush_join_of_fresh {s t : Scan} (hs : s.Rests) (ht : t.isFresh = true) :
    (s.join t).flush = joinTokens s.flush t.flush := by
  have htokens : t.tokens = [] := by
    simpa using (Bool.and_eq_true_iff.mp ht).1
  have hjoin : (s.join t).tokens = s.tokens := if_pos ht
  have hpending : (s.join t).pending = t.pending ++ s.pending := if_pos ht
  by_cases ht' : t.pending = []
  · have hflush : (s.join t).flush = s.flush := by
      unfold flush
      rw [hjoin, hpending, ht', List.nil_append]
    rw [hflush, flush_of_eq_nil ht', htokens, joinTokens_nil]
  · have hne : (s.join t).pending ≠ [] := by
      rw [hpending]
      exact List.append_ne_nil_of_left_ne_nil ht' _
    rw [flush_of_ne_nil hne, flush_of_ne_nil ht', hjoin, hpending, htokens, List.nil_append]
    by_cases hs' : s.pending = []
    · rw [flush_of_eq_nil hs', joinTokens_of_getLast? (hs.tokens hs'), hs', List.append_nil]
    · rw [flush_of_ne_nil hs', List.reverse_append, literal_append hs.pending]
      exact (joinTokens_literal _ _ _ _).symm

theorem flush_join {s t : Scan} (hs : s.Rests) (ht : t.inside = false) :
    (s.join t).flush = joinTokens s.flush t.flush := by
  cases hfresh : t.isFresh with
  | true => exact flush_join_of_fresh hs hfresh
  | false =>
      have htokens : t.tokens ≠ [] := by
        intro he
        simp [isFresh, he, ht] at hfresh
      have hjoin := join_of_not_fresh s hfresh
      by_cases hp : t.pending = []
      · have hp' : (s.join t).pending = [] := by rw [hjoin, hp]
        rw [flush_of_eq_nil hp, flush_of_eq_nil hp', hjoin]
      · have hp' : (s.join t).pending ≠ [] := by rwa [hjoin]
        rw [flush_of_ne_nil hp, flush_of_ne_nil hp', joinTokens_append _ htokens, hjoin]

/-! #### One character -/

theorem join_push (s t : Scan) (c : Char) : (s.join t).push c = s.join (t.push c) := by
  cases hfresh : t.isFresh with
  | true =>
      have hpush : (t.push c).isFresh = true := hfresh
      rw [join_of_fresh s hfresh, join_of_fresh s hpush]
      rfl
  | false =>
      have hpush : (t.push c).isFresh = false := hfresh
      rw [join_of_not_fresh s hfresh, join_of_not_fresh s hpush]
      rfl

/-- A bracket that opens or closes a substitution ends the run at the cut. -/
theorem join_restart (s t : Scan) (c : Char) (tokens : List Token) {inside : Bool}
    (h : inside = true ∨ tokens ≠ []) :
    (s.join t).restart c (joinTokens s.flush tokens) inside =
      s.join (t.restart c tokens inside) := by
  have hfresh : (t.restart c tokens inside).isFresh = false := by
    rcases h with rfl | h
    · simp [isFresh, restart]
    · simp [isFresh, restart, h]
  rw [join_of_not_fresh s hfresh]
  rfl

/-- What a substitution stands for is never merged with a literal before it. -/
theorem joinTokens_concat_of_substitution {body : List Char} {first : Nat} {token : Token}
    (h : substitution body first = .ok token) (ts us : List Token) :
    joinTokens ts (us ++ [token]) = joinTokens ts us ++ [token] := by
  obtain ⟨b, hb, -, rfl⟩ := substitution_eq_ok h
  cases us with
  | cons u us => exact joinTokens_append ts (List.cons_ne_nil u us) _
  | nil =>
      have hne : ∀ text, b.token ≠ .literal text := by
        intro text he
        have hsubstitution := Body.isSubstitution_token hb
        rw [he] at hsubstitution
        exact hsubstitution
      rw [joinTokens_nil]
      exact joinTokens_of_ne hne ts []

theorem close_join (s : Scan) {t : Scan} (c : Char) (hi : t.inside = true) :
    (substitution (s.join t).pending.reverse (s.join t).start).map
        (fun token => (s.join t).restart c ((s.join t).tokens ++ [token]) false) =
      (((substitution t.pending.reverse t.start).map
        fun token => t.restart c (t.tokens ++ [token]) false).map s.join).mapError
          (ParseError.shift s.position) := by
  have hfresh : t.isFresh = false := by simp [isFresh, hi]
  have hpending : (s.join t).pending = t.pending := by rw [join_of_not_fresh s hfresh]
  have hstart : (s.join t).start = s.position + t.start := by rw [join_of_not_fresh s hfresh]
  have htokens : (s.join t).tokens = joinTokens s.flush t.tokens := by
    rw [join_of_not_fresh s hfresh]
  rw [hpending, hstart, htokens, substitution_shift]
  cases hbody : substitution t.pending.reverse t.start with
  | error e => rfl
  | ok token =>
      have hrestart := join_restart s t c (t.tokens ++ [token])
        (Or.inr (by simp) : false = true ∨ _)
      rw [joinTokens_concat_of_substitution hbody] at hrestart
      exact congrArg Except.ok hrestart

/-- One character does behind a template what it does from the beginning. -/
theorem step_join {s t : Scan} (hs : s.Rests) (c : Char) :
    (s.join t).step c =
      ((t.step c).map s.join).mapError (ParseError.shift s.position) := by
  have hprevious := join_previous_iff hs t
  by_cases hopen : c = '<' ∧ t.previous ≠ some '\\' ∧ t.inside = false
  · have hopen' : c = '<' ∧ (s.join t).previous ≠ some '\\' ∧ (s.join t).inside = false :=
      ⟨hopen.1, mt hprevious.mp hopen.2.1, hopen.2.2⟩
    unfold step
    rw [if_pos hopen, if_pos hopen', flush_join hs hopen.2.2, join_restart _ _ _ _ (Or.inl rfl)]
    rfl
  · have hopen' : ¬(c = '<' ∧ (s.join t).previous ≠ some '\\' ∧ (s.join t).inside = false) :=
      fun h => hopen ⟨h.1, mt hprevious.mpr h.2.1, h.2.2⟩
    by_cases hclose : c = '>' ∧ t.previous ≠ some '\\'
    · have hclose' : c = '>' ∧ (s.join t).previous ≠ some '\\' :=
        ⟨hclose.1, mt hprevious.mp hclose.2⟩
      unfold step
      rw [if_neg hopen, if_neg hopen', if_pos hclose, if_pos hclose']
      cases hi : t.inside with
      | true =>
          have hi' : (s.join t).inside = true := hi
          rw [if_pos hi', if_pos rfl]
          exact close_join s c hi
      | false =>
          have hi' : ¬(s.join t).inside = true := by
            change ¬t.inside = true
            simp [hi]
          rw [if_neg hi', if_neg Bool.false_ne_true]
          exact (mapError_shift_within s.position _ t.position (t.position + 1)).symm
    · have hclose' : ¬(c = '>' ∧ (s.join t).previous ≠ some '\\') :=
        fun h => hclose ⟨h.1, mt hprevious.mpr h.2⟩
      unfold step
      rw [if_neg hopen, if_neg hopen', if_neg hclose, if_neg hclose', join_push]
      rfl

/-- Behind a template the characters are read as they are from the beginning. -/
theorem run_join {s t : Scan} (hs : s.Rests) (cs : List Char) :
    (s.join t).run cs = ((t.run cs).map s.join).mapError (ParseError.shift s.position) := by
  induction cs generalizing t with
  | nil => rfl
  | cons c cs ih =>
      rw [run, run, step_join hs]
      cases t.step c with
      | ok next => exact ih
      | error e => rfl

/-- The tokens of characters that are read to their end. -/
theorem flush_run {s : Scan} (hs : s.Rests) {cs : List Char}
    (hcount : unescapedCount '<' cs = unescapedCount '>' cs) :
    (s.run cs).map flush = (((initial.run cs).map flush).map (joinTokens s.flush)).mapError
      (ParseError.shift s.position) := by
  have hjoin := run_join (t := initial) hs cs
  rw [join_initial hs] at hjoin
  rw [hjoin]
  cases hrun : initial.run cs with
  | error e => rfl
  | ok t =>
      have hinside := (inside_eq_false_iff hrun).mpr hcount
      exact congrArg Except.ok (flush_join hs hinside)

end Scan

/-! ### Whole templates -/

/-- Text behind a template that can be read and does not end in a backslash is read as it is
alone. Its tokens follow those of the template, where two literals that meet become one; an
error in it is the same error, and a span lies further to the right by the length of the
template. -/
theorem parse_append {template : String} {tokens : List Token}
    (h : parse template = .ok tokens) (hlast : template.toList.getLast? ≠ some '\\')
    {next : String} (hnext : next ≠ "") :
    parse (template ++ next) =
      ((parse next).map (joinTokens tokens)).mapError (ParseError.shift template.length) := by
  obtain ⟨-, s, hrun, hinside, rfl⟩ := exists_run_of_parseChars h
  have hs := Scan.rests_of_run hrun hinside hlast
  have hcount := (Scan.inside_eq_false_iff hrun).mp hinside
  have hposition : s.position = template.length :=
    (Scan.placed_of_run hrun).position.trans String.length_toList
  have hne : next.toList ≠ [] := by simpa using hnext
  have hne' : template.toList ++ next.toList ≠ [] := List.append_ne_nil_of_right_ne_nil _ hne
  have hlt := unescapedCount_append (by decide : '<' ≠ '\\') hlast next.toList
  have hgt := unescapedCount_append (by decide : '>' ≠ '\\') hlast next.toList
  rw [parse, parse, String.toList_append, parseChars_of_ne_nil hne, parseChars_of_ne_nil hne']
  by_cases hbalanced : unescapedCount '<' next.toList = unescapedCount '>' next.toList
  · have hbalanced' : unescapedCount '<' (template.toList ++ next.toList) =
        unescapedCount '>' (template.toList ++ next.toList) := by
      rw [hlt, hgt, hcount, hbalanced]
    rw [if_neg (not_not.mpr hbalanced), if_neg (not_not.mpr hbalanced'), ← hposition]
    calc
      (Scan.initial.run (template.toList ++ next.toList)).map Scan.flush =
          (s.run next.toList).map Scan.flush := by
        rw [Scan.run_append, hrun]
        rfl
      _ = _ := Scan.flush_run hs hbalanced
  · have hunbalanced : unescapedCount '<' (template.toList ++ next.toList) ≠
        unescapedCount '>' (template.toList ++ next.toList) := by
      omega
    rw [if_pos hbalanced, if_pos hunbalanced]
    rfl

/-- The literals at the cut become one, and an unknown command is found where it stands. -/
theorem parse_append_oxen :
    parse "an <ox> or" = .ok [.literal "an ", .nonTerminal "ox", .literal " or"] ∧
      parse ("an <ox> or" ++ " <(an ox)>") =
        .ok [.literal "an ", .nonTerminal "ox", .literal " or ",
          .expression "article" (.nonTerminal "ox")] ∧
      parse ("an <ox> or" ++ " <(up ox)>") = .error (.within .unknownCommand 13 15) := by
  obtain ⟨hleft, hright, hwrong⟩ :
      parse "an <ox> or" = .ok [.literal "an ", .nonTerminal "ox", .literal " or"] ∧
      parse " <(an ox)>" = .ok [.literal " ", .expression "article" (.nonTerminal "ox")] ∧
      parse " <(up ox)>" = .error (.within .unknownCommand 3 5) := by
    refine ⟨?_, ?_, ?_⟩ <;> decide +kernel
  have hlast : "an <ox> or".toList.getLast? ≠ some '\\' := by decide
  refine ⟨hleft, ?_, ?_⟩
  · rw [parse_append hleft hlast (by decide), hright]
    rfl
  · rw [parse_append hleft hlast (by decide), hwrong]
    rfl

end Template

end TaggedGrammar
