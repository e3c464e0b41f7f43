import TaggedGrammar.Proofs.Grammar.Session

/-!
# Batches of templates

Rules are made of several templates at once: they are appended to a group, or they make a group of
their own. Either all of the templates can be read, and then their rules are appended in order, or
the first that cannot be read is the error, and then nothing has changed. A batch that is taken does
what its templates do one after the other. Where one is refused, the rules of those before it have
been appended by then if they came one after the other, and have not if they came at once.

## Main statements

* `Grammar.edit_of_get?`: what an edit does to a grammar that has the cognate.
* `Grammar.editInTurn_addRule`: what the templates do one after the other, as far as they can be
  read.
* `Rule.taken_or_refused`: a batch is taken as a whole or refused as a whole.
-/

namespace TaggedGrammar

/-! ### Edits of a cognate that is there -/

namespace Grammar

variable {g : Grammar} {name : String} {c : Cognate}

/-- The grammar with another cognate in the place of one name, and else the same. -/
structure Replaced (g : Grammar) (name : String) (c : Cognate) (g' : Grammar) : Prop where
  get?_self : g'.get? name = some c
  get?_other : ∀ other, other ≠ name → g'.get? other = g.get? other
  names_eq : g'.names = g.names
  maxDepth_eq : g'.maxDepth = g.maxDepth

/-- Puts a cognate in the place of a name. -/
def replace (g : Grammar) (name : String) (c : Cognate) : Grammar :=
  { g with cognates := g.cognates.insert name c }

theorem get?_replace_self (g : Grammar) (name : String) (c : Cognate) :
    (g.replace name c).get? name = some c := Table.get?_insert_self ..

theorem replaced_replace (hc : g.get? name = some c) (c' : Cognate) :
    g.Replaced name c' (g.replace name c') where
  get?_self := g.get?_replace_self name c'
  get?_other _ hother := Table.get?_insert_of_ne hother
  names_eq := Table.keys_insert_of_mem (get?_eq_some_iff_cognate.mp hc).1
  maxDepth_eq := rfl

theorem replace_self (hc : g.get? name = some c) : g.replace name c = g :=
  congrArg (Grammar.mk · g.maxDepth) (Table.insert_of_get? hc)

theorem replace_replace (g : Grammar) (name : String) (c c' : Cognate) :
    (g.replace name c).replace name c' = g.replace name c' :=
  congrArg (Grammar.mk · g.maxDepth) (Table.insert_insert_self ..)

theorem edit_of_get? (hc : g.get? name = some c) (f : Cognate → Except InvalidRule Cognate) :
    g.edit name f =
      match f c with
      | .ok c' => (.ok (), g.replace name c')
      | .error e => (.error e, g) := by
  obtain ⟨hin, hcognate⟩ := get?_eq_some_iff_cognate.mp hc
  have hcontains : g.contains name = true := Table.contains_iff_mem.mpr hin
  have hcreate : g.create name = g := by rw [create, hcontains, if_pos rfl]
  rw [edit, hcreate, hcognate]
  rfl

/-- Edits of the cognate of a name, one after the other, up to the first that is refused. -/
def editInTurn (g : Grammar) (name : String) : List Edit → Except InvalidRule Unit × Grammar
  | [] => (.ok (), g)
  | change :: rest =>
    match g.edit name change.apply with
    | (.ok (), edited) => edited.editInTurn name rest
    | (.error e, edited) => (.error e, edited)

end Grammar

/-! ### Groups with more rules -/

namespace Group

/-- The group with rules behind its own. -/
def append (g : Group) (rules : List Rule) : Group := { g with rules := g.rules ++ rules }

@[simp] theorem append_nil (g : Group) : g.append [] = g :=
  congrArg (Group.mk · g.tags g.note) (List.append_nil _)

@[simp] theorem append_append (g : Group) (rules more : List Rule) :
    (g.append rules).append more = g.append (rules ++ more) :=
  congrArg (Group.mk · g.tags g.note) (List.append_assoc ..)

theorem addRules_eq_foldlM (g : Group) (literals : List String) :
    g.addRules literals = literals.foldlM addRule g := by
  induction literals generalizing g with
  | nil => exact congrArg Except.ok g.append_nil
  | cons literal rest ih =>
      rw [List.foldlM_cons, addRules, Rule.ofLiterals_cons, addRule]
      cases Rule.ofLiteral literal with
      | error e => rfl
      | ok r =>
          change _ = List.foldlM addRule (g.append [r]) rest
          rw [← ih, addRules]
          cases Rule.ofLiterals rest with
          | error e => rfl
          | ok rules => exact congrArg Except.ok (g.append_append [r] rules).symm

end Group

namespace Cognate

/-- The cognate with another group at an index. -/
def setGroup (c : Cognate) (i : Nat) (g : Group) : Cognate := { c with groups := c.groups.set i g }

variable {c : Cognate} {i : Nat} {group : Group}

theorem editGroup_of_getElem? (hi : c.groups[i]? = some group)
    (f : Group → Except InvalidRule Group) : c.editGroup i f = (f group).map (c.setGroup i) := by
  rw [editGroup, hi]
  rfl

theorem getElem?_setGroup (hi : c.groups[i]? = some group) (g : Group) :
    (c.setGroup i g).groups[i]? = some g :=
  List.getElem?_set_self (List.getElem?_eq_some_iff.mp hi).1

theorem setGroup_setGroup (c : Cognate) (i : Nat) (g g' : Group) :
    (c.setGroup i g).setGroup i g' = c.setGroup i g' :=
  congrArg (Cognate.mk c.name) (List.set_set ..)

theorem setGroup_self (hi : c.groups[i]? = some group) : c.setGroup i group = c := by
  obtain ⟨hlt, rfl⟩ := List.getElem?_eq_some_iff.mp hi
  exact congrArg (Cognate.mk c.name) (List.set_getElem_self hlt)

end Cognate

/-! ### Templates one after the other -/

namespace Grammar

variable {g : Grammar} {name : String} {c : Cognate} {i : Nat} {group : Group}

theorem edit_group (hc : g.get? name = some c) (hi : c.groups[i]? = some group)
    (f : Group → Except InvalidRule Group) :
    g.edit name (fun c => c.editGroup i f) =
      match f group with
      | .ok g' => (.ok (), g.replace name (c.setGroup i g'))
      | .error e => (.error e, g) := by
  rw [edit_of_get? hc, Cognate.editGroup_of_getElem? hi]
  cases f group <;> rfl

/-- Templates that can be read append their rules, and then the edits behind them are made. -/
theorem editInTurn_addRule (hc : g.get? name = some c) (hi : c.groups[i]? = some group)
    {literals : List String} {rules : List Rule} (hrules : Rule.ofLiterals literals = .ok rules)
    (more : List Edit) :
    g.editInTurn name (literals.map (Edit.addRule i) ++ more) =
      (g.replace name (c.setGroup i (group.append rules))).editInTurn name more := by
  induction literals generalizing g c group rules with
  | nil =>
      cases hrules
      rw [Group.append_nil, Cognate.setGroup_self hi, replace_self hc]
      rfl
  | cons literal rest ih =>
      rw [Rule.ofLiterals_cons] at hrules
      obtain ⟨r, later, hr, hlater, rfl⟩ := Answer.bind_map_eq_ok_iff.mp hrules
      have hedit : g.edit name (Edit.addRule i literal).apply =
          (.ok (), g.replace name (c.setGroup i (group.append [r]))) := by
        have hgroup : group.addRule literal = .ok (group.append [r]) := by
          rw [Group.addRule, hr]
          rfl
        exact (edit_group hc hi _).trans (by rw [hgroup])
      rw [List.map_cons, List.cons_append, editInTurn, hedit]
      change (g.replace name (c.setGroup i (group.append [r]))).editInTurn name _ = _
      rw [ih (get?_replace_self ..) (Cognate.getElem?_setGroup hi _) hlater, replace_replace,
        Cognate.setGroup_setGroup, Group.append_append]
      rfl

end Grammar

/-! ### Batches -/

namespace Rule

/-- All of the templates can be read, and these are their rules. At once they are appended to a
group, or make a group behind those of a cognate, and nothing else is changed. One after the other
the templates do the same to a group. -/
structure TakenWhole (literals : List String) (rules : List Rule) : Prop where
  literals_eq : literals = rules.map literal
  parsed : ∀ r ∈ rules, r.Parsed
  group : ∀ g : Group, g.addRules literals = .ok { g with rules := g.rules ++ rules }
  group_inTurn : ∀ g : Group,
    literals.foldlM Group.addRule g = .ok { g with rules := g.rules ++ rules }
  cognate : ∀ (c : Cognate) tags note, c.groupFromRules literals tags note =
    .ok { c with groups := c.groups ++ [⟨rules, tags, note⟩] }
  edit_group : ∀ (g : Grammar) name c i group, g.get? name = some c → c.groups[i]? = some group →
    ∃ g', g.edit name (Edit.addRules i literals).apply = (.ok (), g') ∧
      g.editInTurn name (literals.map (Edit.addRule i)) = (.ok (), g') ∧
      let appended : Group := { group with rules := group.rules ++ rules }
      g.Replaced name { c with groups := c.groups.set i appended } g'
  edit_cognate : ∀ (g : Grammar) name c tags note, g.get? name = some c →
    ∃ g', g.edit name (Edit.groupFromRules literals tags note).apply = (.ok (), g') ∧
      g.Replaced name { c with groups := c.groups ++ [⟨rules, tags, note⟩] } g'

/-- Not all of the templates can be read. The first that cannot is the error, and nothing is
changed. One after the other the templates before it append their rules to a group. -/
structure RefusedWhole (literals : List String) (before : List Rule) (e : InvalidRule)
    (after : List String) : Prop where
  literals_eq : literals = before.map literal ++ e.literal :: after
  parsed : ∀ r ∈ before, r.Parsed
  invalid : Template.parse e.literal = .error e.error
  group : ∀ g : Group, g.addRules literals = .error e
  cognate : ∀ (c : Cognate) tags note, c.groupFromRules literals tags note = .error e
  edit_group : ∀ (g : Grammar) name c i group, g.get? name = some c → c.groups[i]? = some group →
    g.edit name (Edit.addRules i literals).apply = (.error e, g)
  edit_inTurn : ∀ (g : Grammar) name c i group, g.get? name = some c → c.groups[i]? = some group →
    ∃ g', g.editInTurn name (literals.map (Edit.addRule i)) = (.error e, g') ∧
      let appended : Group := { group with rules := group.rules ++ before }
      g.Replaced name { c with groups := c.groups.set i appended } g'
  edit_cognate : ∀ (g : Grammar) name c tags note, g.get? name = some c →
    g.edit name (Edit.groupFromRules literals tags note).apply = (.error e, g)

variable {literals : List String} {rules : List Rule} {e : InvalidRule}

theorem addRules_of_ok (h : ofLiterals literals = .ok rules) (g : Group) :
    g.addRules literals = .ok (g.append rules) := by
  rw [Group.addRules, h]
  rfl

theorem addRules_of_error (h : ofLiterals literals = .error e) (g : Group) :
    g.addRules literals = .error e := by
  rw [Group.addRules, h]
  rfl

theorem groupFromRules_of_ok (h : ofLiterals literals = .ok rules) (c : Cognate)
    (tags : Table String) (note : String) :
    c.groupFromRules literals tags note = .ok (c.addGroup ⟨rules, tags, note⟩) := by
  rw [Cognate.groupFromRules, Group.ofLiterals, h]
  rfl

theorem groupFromRules_of_error (h : ofLiterals literals = .error e) (c : Cognate)
    (tags : Table String) (note : String) : c.groupFromRules literals tags note = .error e := by
  rw [Cognate.groupFromRules, Group.ofLiterals, h]
  rfl

theorem takenWhole_of_ok (h : ofLiterals literals = .ok rules) : TakenWhole literals rules := by
  obtain ⟨hliterals, hparsed⟩ := ofLiterals_eq_ok_iff.mp h
  refine ⟨hliterals.symm, hparsed, addRules_of_ok h, ?_, groupFromRules_of_ok h, ?_, ?_⟩
  · intro g
    rw [← Group.addRules_eq_foldlM]
    exact addRules_of_ok h g
  · intro g name c i group hc hi
    refine ⟨g.replace name (c.setGroup i (group.append rules)), ?_, ?_,
      Grammar.replaced_replace hc _⟩
    · exact (Grammar.edit_group hc hi _).trans (by rw [addRules_of_ok h])
    · rw [← List.append_nil (literals.map _)]
      exact Grammar.editInTurn_addRule hc hi h []
  · intro g name c tags note hc
    refine ⟨g.replace name (c.addGroup ⟨rules, tags, note⟩), ?_, Grammar.replaced_replace hc _⟩
    exact (Grammar.edit_of_get? hc _).trans
      (by rw [Edit.apply, groupFromRules_of_ok h])

/-- Before the first template that cannot be read there are the rules of the others. -/
theorem exists_before_of_error (h : ofLiterals literals = .error e) :
    ∃ before after, literals = before.map literal ++ e.literal :: after ∧
      ofLiterals (before.map literal) = .ok before ∧ Template.parse e.literal = .error e.error := by
  obtain ⟨texts, after, rfl, htexts, hparse⟩ := ofLiterals_eq_error_iff.mp h
  cases hbefore : ofLiterals texts with
  | error e' =>
      obtain ⟨_, _, rfl, -, hparse'⟩ := ofLiterals_eq_error_iff.mp hbefore
      obtain ⟨tokens, htokens⟩ := htexts e'.literal (by simp)
      cases htokens.symm.trans hparse'
  | ok before =>
      obtain ⟨rfl, -⟩ := ofLiterals_eq_ok_iff.mp hbefore
      exact ⟨before, after, rfl, hbefore, hparse⟩

theorem refusedWhole_of_error (h : ofLiterals literals = .error e) :
    ∃ before after, RefusedWhole literals before e after := by
  obtain ⟨before, after, hliterals, hbefore, hparse⟩ := exists_before_of_error h
  refine ⟨before, after, hliterals, (ofLiterals_eq_ok_iff.mp hbefore).2, hparse,
    addRules_of_error h, groupFromRules_of_error h, ?_, ?_, ?_⟩
  · intro g name c i group hc hi
    exact (Grammar.edit_group hc hi _).trans (by rw [addRules_of_error h])
  · intro g name c i group hc hi
    refine ⟨g.replace name (c.setGroup i (group.append before)), ?_,
      Grammar.replaced_replace hc _⟩
    have hrefused : (group.append before).addRule e.literal = .error e := by
      rw [Group.addRule, ofLiteral_eq_error_iff.mpr ⟨rfl, hparse⟩]
      rfl
    have hedit : (g.replace name (c.setGroup i (group.append before))).edit name
        (Edit.addRule i e.literal).apply =
          (.error e, g.replace name (c.setGroup i (group.append before))) :=
      (Grammar.edit_group (Grammar.get?_replace_self ..) (Cognate.getElem?_setGroup hi _) _).trans
        (by rw [hrefused])
    rw [hliterals, List.map_append, Grammar.editInTurn_addRule hc hi hbefore, List.map_cons,
      Grammar.editInTurn, hedit]
  · intro g name c tags note hc
    exact (Grammar.edit_of_get? hc _).trans (by rw [Edit.apply, groupFromRules_of_error h])

/-- A batch of templates is taken as a whole, and then does what the templates do one after the
other, or it is refused as a whole for the first template that cannot be read. -/
theorem taken_or_refused (literals : List String) :
    (∃ rules, TakenWhole literals rules) ∨
      ∃ before e after, RefusedWhole literals before e after := by
  cases h : ofLiterals literals with
  | ok rules => exact Or.inl ⟨rules, takenWhole_of_ok h⟩
  | error e =>
      obtain ⟨before, after, hrefused⟩ := refusedWhole_of_error h
      exact Or.inr ⟨before, e, after, hrefused⟩

/-- At once nothing comes to the pond, and one after the other the frog does. -/
example :
    let pond (rules : List Rule) : Cognate := ⟨"pond", [⟨rules, ∅, ""⟩]⟩
    let g : Grammar := .ofCognates [pond []] 3
    let texts := ["frog", "<", "newt"]
    (g.edit "pond" (Edit.addRules 0 texts).apply).2.get? "pond" = some (pond []) ∧
      (g.editInTurn "pond" (texts.map (Edit.addRule 0))).2.get? "pond" =
        some (pond [⟨"frog", [.literal "frog"]⟩]) := by
  decide

end Rule

end TaggedGrammar
