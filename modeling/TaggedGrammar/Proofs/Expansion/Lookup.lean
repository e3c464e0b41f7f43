import TaggedGrammar.Proofs.Expansion.Safety

/-!
# Rules by their index

A selection puts the rules of all groups that the context accepts in a row, draws an index into the
row and answers with the rule that stands there. It finds that rule by bisecting the running totals
of the numbers of rules, which repeat where a group is empty. Still the index leads to exactly one
rule of one group, and to every rule leads exactly one index.

## Main statements

* `ruleBounds_le_iff`: the position of an index parts the running totals.
* `rulesBefore_eq_ruleTotal`: what stands before the group at that position.
* `existsUnique_index`: every rule of every group has one index.
* `Grammar.select_of_rules`: a selection where there are rules in the row.
* `Grammar.select_by_index`: everything that a selection does.
-/

namespace TaggedGrammar

/-! ### Running totals -/

@[simp] theorem length_ruleBounds (gs : List Group) : (ruleBounds gs).length = gs.length := by
  induction gs with
  | nil => rfl
  | cons g gs ih => simp [ruleBounds, ih]

/-- Up to the position of an index the totals are not above it, and from there on they are. -/
theorem ruleBounds_le_iff {gs : List Group} {i k total : Nat}
    (h : (ruleBounds gs)[k]? = some total) : total ≤ i ↔ k < groupPosition gs i := by
  induction gs generalizing i k total with
  | nil => simp [ruleBounds] at h
  | cons g gs ih =>
      by_cases hi : i < g.rules.length
      · rw [groupPosition_cons_of_lt hi]
        have hle : g.rules.length ≤ total := by
          rcases List.mem_cons.mp (List.mem_of_getElem? h) with rfl | hm
          · exact Nat.le_refl _
          · obtain ⟨rest, -, rfl⟩ := List.mem_map.mp hm
            exact Nat.le_add_right _ _
        omega
      · have hle : g.rules.length ≤ i := Nat.le_of_not_lt hi
        rw [groupPosition_cons_of_le hle]
        cases k with
        | zero =>
            obtain rfl : g.rules.length = total := by simpa [ruleBounds] using h
            omega
        | succ k =>
            obtain ⟨rest, hrest, rfl⟩ : ∃ rest, (ruleBounds gs)[k]? = some rest ∧
                g.rules.length + rest = total := by simpa [ruleBounds] using h
            have hposition := ih (i := i - g.rules.length) hrest
            omega

/-- Before the group at the position of an index stand the rules of the groups before it. -/
theorem rulesBefore_eq_ruleTotal (gs : List Group) (i : Nat) :
    rulesBefore gs i = ruleTotal (gs.take (groupPosition gs i)) := by
  induction gs generalizing i with
  | nil => rfl
  | cons g gs ih =>
      by_cases hi : i < g.rules.length
      · rw [rulesBefore, groupPosition_cons_of_lt hi]
        rfl
      · have hle : g.rules.length ≤ i := Nat.le_of_not_lt hi
        rw [rulesBefore_cons_of_le hle, groupPosition_cons_of_le hle, ih]
        rfl

/-! ### Indices and rules -/

/-- A rule has its place in the row behind the rules of the groups before its own. -/
theorem groupPosition_of_getElem? {gs : List Group} {p q : Nat} {group : Group}
    (hp : gs[p]? = some group) (hq : q < group.rules.length) :
    groupPosition gs (ruleTotal (gs.take p) + q) = p := by
  induction gs generalizing p with
  | nil => simp at hp
  | cons g gs ih =>
      cases p with
      | zero =>
          obtain rfl : g = group := by simpa using hp
          exact groupPosition_cons_of_lt (by simpa [ruleTotal] using hq)
      | succ p =>
          have hrest : groupPosition gs (ruleTotal (gs.take p) + q) = p := ih (by simpa using hp)
          rw [List.take_succ_cons, ruleTotal, Nat.add_assoc,
            groupPosition_cons_of_le (Nat.le_add_right _ _), Nat.add_sub_cancel_left, hrest]

theorem ruleTotal_take_add_lt {gs : List Group} {p q : Nat} {group : Group}
    (hp : gs[p]? = some group) (hq : q < group.rules.length) :
    ruleTotal (gs.take p) + q < ruleTotal gs := by
  induction gs generalizing p with
  | nil => simp at hp
  | cons g gs ih =>
      cases p with
      | zero =>
          obtain rfl : g = group := by simpa using hp
          simp only [List.take_zero, ruleTotal]
          omega
      | succ p =>
          have hrest : ruleTotal (gs.take p) + q < ruleTotal gs := ih (by simpa using hp)
          simp only [List.take_succ_cons, ruleTotal]
          omega

/-- To every rule of every group leads exactly one index. -/
theorem existsUnique_index {gs : List Group} {p q : Nat} {group : Group}
    (hp : gs[p]? = some group) (hq : q < group.rules.length) :
    ∃! i, i < ruleTotal gs ∧ groupPosition gs i = p ∧ rulePosition gs i = q := by
  have hposition := groupPosition_of_getElem? hp hq
  refine ⟨ruleTotal (gs.take p) + q, ⟨ruleTotal_take_add_lt hp hq, hposition, ?_⟩, ?_⟩
  · rw [rulePosition, rulesBefore_eq_ruleTotal, hposition, Nat.add_sub_cancel_left]
  · rintro i ⟨hi, rfl, rfl⟩
    have hbefore := (leadsTo_ruleAt hi).before_le
    rw [rulePosition, ← rulesBefore_eq_ruleTotal]
    omega

/-- The rules of groups in a row without the groups. -/
theorem map_snd_rulesInRow (gs : List Group) :
    (rulesInRow gs).map Prod.snd = gs.flatMap Group.rules := by
  induction gs with
  | nil => rfl
  | cons g gs ih => simp [ih, Function.comp_def]

theorem length_flatMap_rules (gs : List Group) :
    (gs.flatMap Group.rules).length = ruleTotal gs := by
  rw [← map_snd_rulesInRow, List.length_map, length_rulesInRow]

theorem getElem?_flatMap_rules {gs : List Group} {i : Nat} (h : i < ruleTotal gs) :
    (gs.flatMap Group.rules)[i]? = some (ruleAt gs i h).2 := by
  rw [← map_snd_rulesInRow, List.getElem?_map, getElem?_rulesInRow h]
  rfl

/-- The index lies in the group: bisecting the running totals leads there, the groups before it have
no more rules than the index says, and what is left is the position of the rule in the group. -/
structure Owns (gs : List Group) (i : Nat) (group : Group) (rule : Rule) : Prop
    extends LeadsTo gs i group rule where
  bisects : ∀ k total, (ruleBounds gs)[k]? = some total → (total ≤ i ↔ k < groupPosition gs i)
  before_eq : rulesBefore gs i = ruleTotal (gs.take (groupPosition gs i))

theorem owns_ruleAt {gs : List Group} {i : Nat} (h : i < ruleTotal gs) :
    Owns gs i (ruleAt gs i h).1 (ruleAt gs i h).2 where
  toLeadsTo := leadsTo_ruleAt h
  bisects _ _ := ruleBounds_le_iff
  before_eq := rulesBefore_eq_ruleTotal gs i

/-! ### Selections -/

/-- Between the states one index below the number of rules was drawn, and the tags of the group were
written over those of the context. -/
structure State.Chose (s : State) (group : Group) (i total : Nat) (t : State) : Prop where
  tags : t.context.tags = s.context.tags.insertMany group.tags.entries
  bindings : t.context.bindings = s.context.bindings
  frames : t.context.frames = s.context.frames
  draws : t.chance.draws = s.chance.draws.push ⟨0, total, i⟩
  stream : t.chance.stream = s.chance.stream

theorem State.chose_choose {s : State} {name : String} {group : Group} {rule : Rule}
    {i total : Nat} (h : s.chance.value 0 total = i) :
    s.Chose group i total (s.choose name group rule i total) where
  tags := rfl
  bindings := rfl
  frames := rfl
  draws := congrArg (fun value => s.chance.draws.push ⟨0, total, value⟩) h
  stream := rfl

namespace Grammar

variable {g : Grammar} {name : String} {s : State} {c : Cognate}

theorem select_of_get?_eq_none (h : g.get? name = none) :
    g.select name s = (.error (.unknownCognate name), s) := by
  simp only [select, h]

theorem select_of_groups_eq_nil (hc : g.get? name = some c) (h : c.groups = []) :
    g.select name s = (.error (.emptyCognate name), s) := by
  simp [select, hc, Cognate.isEmpty, h]

theorem select_of_suitable_eq_nil (hc : g.get? name = some c) (hgroups : c.groups ≠ [])
    (h : suitable s.context c = []) :
    g.select name s = (.error (.noSuitableGroups name s.context.tags), s) := by
  simp [select, hc, Cognate.isEmpty, hgroups, h]

theorem groups_ne_nil_of_suitable {ctx : Context} (h : suitable ctx c ≠ []) : c.groups ≠ [] := by
  rintro hgroups
  rw [suitable, hgroups] at h
  exact h rfl

theorem select_of_rules_eq_nil (hc : g.get? name = some c) (hs : suitable s.context c ≠ [])
    (h : (suitable s.context c).flatMap Group.rules = []) :
    g.select name s = (.error (.emptyCognate name), s) := by
  have htotal : ruleTotal (suitable s.context c) = 0 := by
    rw [← length_flatMap_rules, h, List.length_nil]
  simp [select, hc, Cognate.isEmpty, groups_ne_nil_of_suitable hs, hs, htotal]

/-- Where there are rules in the row, one draw gives the index of the rule that is selected, and
the tags of the group to which the running totals lead are merged. -/
theorem select_of_rules (hc : g.get? name = some c)
    (h : (suitable s.context c).flatMap Group.rules ≠ []) :
    ∃ (i : Nat) (group : Group) (rule : Rule),
      s.chance.value 0 ((suitable s.context c).flatMap Group.rules).length = i ∧
      ((suitable s.context c).flatMap Group.rules)[i]? = some rule ∧
      Owns (suitable s.context c) i group rule ∧
      g.select name s = (.ok rule,
        s.choose name group rule i ((suitable s.context c).flatMap Group.rules).length) ∧
      s.Chose group i ((suitable s.context c).flatMap Group.rules).length
        (s.choose name group rule i ((suitable s.context c).flatMap Group.rules).length) := by
  have hpos : 0 < ruleTotal (suitable s.context c) := by
    rw [← length_flatMap_rules]
    exact List.length_pos_iff.mpr h
  have hindex := index_lt s.chance hpos
  have hdrawn := Chance.le_value (c := s.chance) (Int.natCast_pos.mpr hpos)
  have hoffered : (offered s.context c).length = ruleTotal (suitable s.context c) :=
    length_rulesInRow _
  have hselect := select_eq_chosen g hc rfl (getElem?_rulesInRow (by rwa [hoffered]))
  rw [length_flatMap_rules]
  simp only [hoffered] at hselect
  have hvalue := (Int.toNat_of_nonneg hdrawn).symm
  exact ⟨_, _, _, hvalue, getElem?_flatMap_rules hindex, owns_ruleAt hindex, hselect,
    State.chose_choose hvalue⟩

/-- A selection fails for an unknown name, for a cognate without groups, where no group suits the
tags, and where the groups that do have no rules; all of this without a draw or a change. Otherwise
it takes one index below the number of rules, answers with the rule that stands there in the row
and writes the tags of the group in which the index lies, and only these, over those of the context.
To every rule of every suitable group leads exactly one index. -/
theorem select_by_index (g : Grammar) (name : String) (s : State) :
    (g.get? name = none → g.select name s = (.error (.unknownCognate name), s)) ∧
    ∀ c, g.get? name = some c →
      let groups := suitable s.context c
      let rules := groups.flatMap Group.rules
      (c.groups = [] → g.select name s = (.error (.emptyCognate name), s)) ∧
      (c.groups ≠ [] → groups = [] →
        g.select name s = (.error (.noSuitableGroups name s.context.tags), s)) ∧
      (groups ≠ [] → rules = [] → g.select name s = (.error (.emptyCognate name), s)) ∧
      (rules ≠ [] → ∃ (i : Nat) (group : Group) (rule : Rule),
        s.chance.value 0 rules.length = i ∧ rules[i]? = some rule ∧ Owns groups i group rule ∧
          g.select name s = (.ok rule, s.choose name group rule i rules.length) ∧
          s.Chose group i rules.length (s.choose name group rule i rules.length)) ∧
      ∀ (p q : Nat) (group : Group), groups[p]? = some group → q < group.rules.length →
        ∃! i, i < rules.length ∧ groupPosition groups i = p ∧ rulePosition groups i = q := by
  refine ⟨select_of_get?_eq_none, fun c hc => ?_⟩
  intro groups rules
  refine ⟨select_of_groups_eq_nil hc, select_of_suitable_eq_nil hc, select_of_rules_eq_nil hc,
    select_of_rules hc, fun p q group hp hq => ?_⟩
  have hlength : rules.length = ruleTotal groups := length_flatMap_rules groups
  rw [hlength]
  exact existsUnique_index hp hq

end Grammar

/-- A rule of plain text. -/
def plainRule (text : String) : Rule := ⟨text, [.literal text]⟩

/-- A heron has long legs. -/
def herons : Group := ⟨[plainRule "heron"], Table.insert ∅ "legs" "long", ""⟩

/-- The groups of the birds. Some have no rules, and the gulls are at sea. -/
def birds : List Group :=
  [⟨[], ∅, ""⟩, ⟨[plainRule "duck", plainRule "swan"], ∅, ""⟩,
    ⟨[plainRule "gull"], Table.insert ∅ "at" "sea", ""⟩, ⟨[], ∅, ""⟩, ⟨[], ∅, "asleep"⟩, herons,
    ⟨[], ∅, ""⟩]

/-- The birds, and cognates of which no rule can be selected at the pond. -/
def pond : Grammar := .ofCognates [⟨"bird", birds⟩, ⟨"fish", []⟩,
  ⟨"whale", [⟨[plainRule "whale"], Table.insert ∅ "at" "sea", ""⟩]⟩, ⟨"frog", [⟨[], ∅, ""⟩]⟩] 3

/-- At the pond the heron has the index behind duck and swan, across two groups without rules and
the gulls, and only its long legs are told behind the pond. -/
theorem select_by_index_pond :
    let s : State := .start ⟨Table.insert ∅ "at" "pond", ∅, [[]]⟩ (.ofArray #[5])
    let groups := Grammar.suitable s.context ⟨"bird", birds⟩
    let t := s.choose "bird" herons (plainRule "heron") 2 3
    pond.select "newt" s = (.error (.unknownCognate "newt"), s) ∧
      pond.select "fish" s = (.error (.emptyCognate "fish"), s) ∧
      pond.select "whale" s = (.error (.noSuitableGroups "whale" s.context.tags), s) ∧
      pond.select "frog" s = (.error (.emptyCognate "frog"), s) ∧
      (Owns groups 2 herons (plainRule "heron") ∧
        pond.select "bird" s = (.ok (plainRule "heron"), t) ∧ s.Chose herons 2 3 t ∧
        t.context.tags = .ofList [("at", "pond"), ("legs", "long")]) ∧
      ∃! i, i < 3 ∧ groupPosition groups i = 4 ∧ rulePosition groups i = 0 := by
  intro s groups t
  have hname (name : String) := pond.select_by_index name s
  have hbird := (hname "bird").2 ⟨"bird", birds⟩ rfl
  obtain ⟨i, group, rule, hvalue, hrule, howns, hselect, hchose⟩ :=
    hbird.2.2.2.1 (List.cons_ne_nil _ _)
  obtain rfl : 2 = i := by
    have hdrawn : s.chance.value 0 3 = 2 := rfl
    exact Int.ofNat.inj (hdrawn.symm.trans hvalue)
  obtain rfl : plainRule "heron" = rule := Option.some.inj hrule
  obtain rfl : herons = group := Option.some.inj howns.group_eq
  have htags : t.context.tags = .ofList [("at", "pond"), ("legs", "long")] := hchose.tags.trans rfl
  refine ⟨(hname "newt").1 rfl, ((hname "fish").2 _ rfl).1 rfl,
    ((hname "whale").2 _ rfl).2.1 (List.cons_ne_nil _ _) rfl,
    ((hname "frog").2 _ rfl).2.2.1 (List.cons_ne_nil _ _) rfl,
    ⟨howns, hselect, hchose, htags⟩, ?_⟩
  exact hbird.2.2.2.2 4 0 _ rfl (by decide)

end TaggedGrammar
