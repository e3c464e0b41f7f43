import TaggedGrammar.Proofs.Expansion.Law

/-!
# Tags stay consistent

Merging a group writes its tags over those of the context, whatever they were. No tag changes
its value in an expansion nevertheless, since every group is held against the tags of that very
moment before it is merged. The groups of a whole call therefore agree with each other and with
the tags that the call began with, however deep they were chosen and however the call ends.

## Main statements

* `Gathers.consistent`: what follows for groups that were each accepted before the merge.
* `tagLaw`: `TagsGathered` makes a law.
* `Grammar.consistent_tags`: the tags of a call are gathered consistently.
-/

namespace TaggedGrammar

/-- The group of which a rule was selected, if the event is a selection. -/
def Event.group? : Event → Option Group
  | .selected _ group _ _ _ => some group
  | .requested _ _ => none
  | .stuck _ _ => none
  | .assigned _ _ => none

/-- The tags after groups were merged one after the other. -/
def gathered (tags : Table String) (groups : List Group) : Table String :=
  groups.foldl (fun tags group => tags.insertMany group.tags.entries) tags

@[simp] theorem gathered_nil (tags : Table String) : gathered tags [] = tags := rfl

@[simp] theorem gathered_cons (tags : Table String) (group : Group) (groups : List Group) :
    gathered tags (group :: groups) =
      gathered (tags.insertMany group.tags.entries) groups := rfl

/-- Each of the groups agrees with the tags that it is merged into, and `final` is what comes
out. -/
inductive Gathers : Table String → List Group → Table String → Prop
  | nil {tags : Table String} : Gathers tags [] tags
  | cons {tags final : Table String} {group : Group} {groups : List Group}
      (agrees : tags.Agrees group.tags)
      (rest : Gathers (tags.insertMany group.tags.entries) groups final) :
      Gathers tags (group :: groups) final

theorem Gathers.append {tags middle final : Table String} {groups more : List Group}
    (h : Gathers tags groups middle) (h' : Gathers middle more final) :
    Gathers tags (groups ++ more) final := by
  induction h with
  | nil => exact h'
  | cons agrees _ ih => exact .cons agrees (ih h')

/-! ### What follows for the groups -/

/-- The groups were merged into the tags without a clash: no tag changed its value on the way,
and the groups agree with the tags at the beginning and with each other. -/
structure ConsistentTags (tags : Table String) (groups : List Group) (final : Table String) :
    Prop where
  final_eq : final = gathered tags groups
  /-- The initial tags stand unchanged at the head of the final ones. -/
  initial_prefix : tags.entries <+: final.entries
  /-- From any one merge to any later one, tags are only added behind. -/
  grows : ∀ i j, i ≤ j →
    (gathered tags (groups.take i)).entries <+: (gathered tags (groups.take j)).entries
  agrees_initial : ∀ group ∈ groups, tags.Agrees group.tags
  agrees : groups.Pairwise fun group other => group.tags.Agrees other.tags

theorem Gathers.eq_gathered {tags final : Table String} {groups : List Group}
    (h : Gathers tags groups final) : final = gathered tags groups := by
  induction h with
  | nil => rfl
  | cons _ _ ih => exact ih

theorem Gathers.prefix_take {tags final : Table String} {groups : List Group}
    (h : Gathers tags groups final) (n : Nat) :
    tags.entries <+: (gathered tags (groups.take n)).entries := by
  induction h generalizing n with
  | nil => simp
  | cons agrees _ ih =>
      cases n with
      | zero => exact List.prefix_rfl
      | succ n => exact (Table.prefix_insertMany agrees).trans (ih n)

theorem Gathers.prefix_of_le {tags final : Table String} {groups : List Group}
    (h : Gathers tags groups final) {i j : Nat} (hij : i ≤ j) :
    (gathered tags (groups.take i)).entries <+: (gathered tags (groups.take j)).entries := by
  induction h generalizing i j with
  | nil => simp
  | @cons tags final group groups agrees rest ih =>
      cases i with
      | zero => exact (Gathers.cons agrees rest).prefix_take j
      | succ i =>
          obtain ⟨j, rfl⟩ := Nat.exists_eq_succ_of_ne_zero (by omega : j ≠ 0)
          exact ih (by omega)

theorem Gathers.agrees_initial {tags final : Table String} {groups : List Group}
    (h : Gathers tags groups final) : ∀ group ∈ groups, tags.Agrees group.tags := by
  induction h with
  | nil => exact fun _ hg => nomatch hg
  | cons agrees _ ih =>
      intro group hg
      rcases List.mem_cons.mp hg with rfl | hg
      · exact agrees
      · exact (ih group hg).of_extends (Table.prefix_insertMany agrees)

theorem Gathers.pairwise {tags final : Table String} {groups : List Group}
    (h : Gathers tags groups final) :
    groups.Pairwise fun group other => group.tags.Agrees other.tags := by
  induction h with
  | nil => exact .nil
  | cons _ rest ih =>
      exact .cons (fun other ho => (rest.agrees_initial other ho).of_insertMany) ih

theorem Gathers.consistent {tags final : Table String} {groups : List Group}
    (h : Gathers tags groups final) : ConsistentTags tags groups final where
  final_eq := h.eq_gathered
  initial_prefix := by simpa [h.eq_gathered] using h.prefix_take groups.length
  grows _ _ := h.prefix_of_le
  agrees_initial := h.agrees_initial
  agrees := h.pairwise

/-! ### The law -/

/-- The groups selected between the two states were merged one after the other, each accepted
just before. -/
def TagsGathered (s t : State) : Prop :=
  ∃ events, s.Recorded events t ∧
    Gathers s.context.tags (events.filterMap Event.group?) t.context.tags

theorem TagsGathered.refl (s : State) : TagsGathered s s := ⟨[], .refl s, .nil⟩

theorem TagsGathered.trans {s t u : State} (h : TagsGathered s t) (h' : TagsGathered t u) :
    TagsGathered s u := by
  obtain ⟨es, hes, hg⟩ := h
  obtain ⟨fs, hfs, hg'⟩ := h'
  refine ⟨es ++ fs, hes.trans hfs, ?_⟩
  rw [List.filterMap_append]
  exact hg.append hg'

/-- Steps that select nothing may follow as long as they leave the tags alone. -/
theorem TagsGathered.note {s t : State} (h : TagsGathered s t) {event : Event}
    (he : event.group? = none) : TagsGathered s (t.note event) :=
  h.trans ⟨[event], t.recorded_note event, by
    rw [List.filterMap_cons_none he]
    exact .nil⟩

theorem tagLaw : StateLaw TagsGathered TagsGathered where
  inner_trans _ _ _ := TagsGathered.trans
  inner_of_outer _ _ h := h
  outer_refl := .refl
  outer_trans _ _ _ := TagsGathered.trans
  draw := fun s _ _ => TagsGathered.refl s
  choose s name group rule index total haccepts :=
    ⟨[.selected name group rule index total], s.recorded_note _,
      .cons (Context.accepts_iff.mp haccepts) .nil⟩
  bind := by
    intro s t name value event _ h he
    have hgroup : event.group? = none := by
      cases event with
      | requested name frames => rfl
      | selected name group rule index total => cases he
      | stuck name value => rfl
      | assigned name value => rfl
    exact h.note hgroup
  request := fun s _ => (TagsGathered.refl s).note rfl
  frame := by
    rintro s t ⟨events, hr, hg⟩
    refine ⟨events, hr, ?_⟩
    change Gathers _ _ t.context.ascend.tags
    rw [Context.tags_ascend]
    exact hg

/-- Between the two states groups were selected, and their tags were gathered consistently. -/
def ConsistentCall (s t : State) : Prop :=
  ∃ events, s.Recorded events t ∧
    ConsistentTags s.context.tags (events.filterMap Event.group?) t.context.tags

theorem TagsGathered.consistentCall {s t : State} (h : TagsGathered s t) :
    ConsistentCall s t := by
  obtain ⟨events, hr, hg⟩ := h
  exact ⟨events, hr, hg.consistent⟩

/-- Whichever way a call comes in and however it ends, its groups are chosen consistently: the
tags only grow, by the tags of these groups, and no two of the groups differ in a tag. -/
theorem Grammar.consistent_tags (g : Grammar) (s : State) :
    (∀ name, ConsistentCall s (g.generateWith name s).2) ∧
      (∀ literal, ConsistentCall s (g.expandWith literal s).2) ∧
      ∀ tokens, ConsistentCall s (g.evaluate tokens s).2 :=
  ⟨fun name => (tagLaw.generateWith g name s).consistentCall,
    fun literal => (tagLaw.expandWith g literal s).consistentCall,
    fun tokens => (tagLaw.evaluate g tokens s).consistentCall⟩

end TaggedGrammar
