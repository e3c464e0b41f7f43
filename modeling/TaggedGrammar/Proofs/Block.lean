import TaggedGrammar.Proofs.Context

/-!
# Blocks of changes

A block opens a frame, changes the context while it is open, and closes it. There may be blocks
inside. Closing a frame does not bring an older text back, and it takes out every name that the
frame has recorded, wherever else the name was bound. So behind a block no name is bound any more
that was bound in it or in a block inside. The other names are bound as before, the frames are those
from before, and the tags are gathered as if there were no frames at all.

## Main statements

* `Context.Leaves.trans`, `Context.Leaves.block`: changes one after the other, and a frame around
  them.
* `Context.exists_leaves_of_balanced`: what balanced changes leave.
* `Context.unbinds_block`: what a block leaves.

## Implementation notes

A name may be bound in a frame and then unbound by a block inside, while the frame still has it on
record. `Leaves` therefore tells the names that are on record from those that were bound at all.
-/

namespace TaggedGrammar

/-! ### Entries of other keys -/

namespace Table

variable {α : Type}

/-- The entries of a table under other keys than these. -/
def outside (t : Table α) (ks : List String) : List (String × α) :=
  t.entries.filter fun e => decide (e.1 ∉ ks)

theorem outside_append (t : Table α) (ks more : List String) :
    t.outside (ks ++ more) = (t.outside ks).filter fun e => decide (e.1 ∉ more) := by
  rw [outside, outside, List.filter_filter]
  simp only [List.mem_append, not_or, Bool.decide_and, Bool.and_comm]

theorem outside_append_comm (t : Table α) (ks more : List String) :
    t.outside (ks ++ more) = t.outside (more ++ ks) := by
  simp only [outside, List.mem_append, or_comm]

theorem mem_keys_iff_outside {t : Table α} {ks : List String} {k : String} (h : k ∉ ks) :
    k ∈ t.keys ↔ k ∈ (t.outside ks).map Prod.fst := by
  simp only [keys, outside, List.mem_map, List.mem_filter, decide_eq_true_eq]
  constructor
  · rintro ⟨e, he, rfl⟩
    exact ⟨e, ⟨he, h⟩, rfl⟩
  · rintro ⟨e, ⟨he, -⟩, rfl⟩
    exact ⟨e, he, rfl⟩

theorem outside_insert (t : Table α) (k : String) (v : α) :
    (t.insert k v).outside [k] = t.outside [k] := by
  have hentries : ∀ es : List (String × α), (insertEntry k v es).filter
      (fun e => decide (e.1 ∉ [k])) = es.filter fun e => decide (e.1 ∉ [k]) := by
    intro es
    induction es with
    | nil => simp [insertEntry]
    | cons e es ih =>
        by_cases he : e.1 = k
        · simp [insertEntry, he]
        · rw [insertEntry, if_neg he, List.filter_cons, List.filter_cons, ih]
  exact hentries t.entries

end Table

namespace Context

/-! ### Changes -/

/-- A change of a context. -/
inductive Change where
  | set (key value : String)
  | merge (g : Group)
  | bind (name value : String)
  | descend
  | ascend

namespace Change

/-- The context after a change. -/
def apply (ctx : Context) : Change → Context
  | set key value => ctx.set key value
  | merge g => ctx.merge g
  | bind name value => ctx.bind name value
  | descend => ctx.descend
  | ascend => ctx.ascend

/-- The name that is bound by a change. -/
def bound? : Change → Option String
  | bind name _ => some name
  | _ => none

/-- Whether a change sets tags. -/
def setsTags : Change → Bool
  | set _ _ | merge _ => true
  | _ => false

/-- Whether a change opens or closes a frame. -/
def isBracket : Change → Bool
  | descend | ascend => true
  | _ => false

end Change

/-- The context after changes, one after the other. -/
def changed (ctx : Context) (changes : List Change) : Context := changes.foldl Change.apply ctx

/-- The names that are bound by changes. -/
def namesBound (changes : List Change) : List String := changes.filterMap Change.bound?

/-- Changes with a frame that is opened before them and closed behind them. -/
def block (inner : List Change) : List Change := .descend :: (inner ++ [.ascend])

/-- Every frame that is opened by one of the changes is closed by a later one, and no others are
closed. -/
inductive Balanced : List Change → Prop where
  | nil : Balanced []
  | cons {c : Change} {rest : List Change} (hc : c.isBracket = false) (h : Balanced rest) :
      Balanced (c :: rest)
  | block {inner rest : List Change} (hinner : Balanced inner) (hrest : Balanced rest) :
      Balanced (block inner ++ rest)

theorem changed_append (ctx : Context) (changes more : List Change) :
    ctx.changed (changes ++ more) = (ctx.changed changes).changed more := List.foldl_append

theorem changed_block (ctx : Context) (inner : List Change) :
    ctx.changed (block inner) = (ctx.descend.changed inner).ascend := by
  change ctx.descend.changed (inner ++ [.ascend]) = _
  rw [changed_append]
  rfl

/-! ### Tags -/

theorem tags_changed_filter {ctx other : Context} (h : ctx.tags = other.tags)
    (changes : List Change) :
    (ctx.changed changes).tags = (other.changed (changes.filter Change.setsTags)).tags := by
  induction changes generalizing ctx other with
  | nil => exact h
  | cons c rest ih =>
      cases c with
      | set key value => exact ih (congrArg (·.insert key value) h)
      | merge g => exact ih (congrArg (·.insertMany g.tags.entries) h)
      | bind name value => exact ih h
      | descend => exact ih h
      | ascend => exact ih (ctx.tags_ascend.trans h)

/-! ### Bindings and frames -/

/-- What changes leave that bind names, some of which are on record in the innermost frame: other
names are bound as before, and a name that is not on record is not bound. -/
structure Leaves (names recorded : List String) (ctx after : Context) : Prop where
  frames : after.frames = record recorded ctx.frames
  recorded_subset : recorded ⊆ names
  outside : after.bindings.outside names = ctx.bindings.outside names
  unbound : ∀ name ∈ names, name ∉ recorded → name ∉ after.bindings.keys

namespace Leaves

variable {names more recorded added : List String} {ctx mid after : Context}

theorem of_eq (hframes : after.frames = ctx.frames) (hbindings : after.bindings = ctx.bindings) :
    Leaves [] [] ctx after where
  frames := hframes.trans (record_nil ctx.frames).symm
  recorded_subset := List.nil_subset _
  outside := congrArg (·.outside []) hbindings
  unbound := nofun

theorem bind (ctx : Context) (name value : String) :
    Leaves [name] [name] ctx (ctx.bind name value) where
  frames := ctx.frames_bind name value
  recorded_subset := List.Subset.refl _
  outside := ctx.bindings.outside_insert name value
  unbound _ hname hrecorded := absurd hname hrecorded

theorem trans (h : Leaves names recorded ctx mid) (h' : Leaves more added mid after) :
    Leaves (names ++ more) (recorded ++ added) ctx after where
  frames := by rw [h'.frames, h.frames, record_append]
  recorded_subset := List.append_subset.mpr
    ⟨List.subset_append_of_subset_left more h.recorded_subset,
      List.subset_append_of_subset_right names h'.recorded_subset⟩
  outside := by
    calc after.bindings.outside (names ++ more)
        = (after.bindings.outside more).filter (fun e => decide (e.1 ∉ names)) := by
          rw [Table.outside_append_comm, Table.outside_append]
      _ = mid.bindings.outside (more ++ names) := by
          rw [h'.outside, Table.outside_append]
      _ = (mid.bindings.outside names).filter (fun e => decide (e.1 ∉ more)) := by
          rw [Table.outside_append_comm, Table.outside_append]
      _ = ctx.bindings.outside (names ++ more) := by
          rw [h.outside, Table.outside_append]
  unbound := by
    intro name hname hrecorded
    rw [List.mem_append, not_or] at hrecorded
    by_cases hmore : name ∈ more
    · exact h'.unbound name hmore hrecorded.2
    · have hnames : name ∈ names := (List.mem_append.mp hname).resolve_right hmore
      rw [Table.mem_keys_iff_outside hmore, h'.outside, ← Table.mem_keys_iff_outside hmore]
      exact h.unbound name hnames hrecorded.1

/-- Closing the frame leaves only what is bound under other names. -/
theorem entries_ascend (h : Leaves names recorded ctx.descend after) :
    after.ascend.bindings.entries = ctx.bindings.outside names := by
  have hframes : after.frames = recorded :: ctx.frames := h.frames
  rw [ascend_of_frames hframes, Table.entries_foldl_erase, ← ctx.bindings_descend, ← h.outside]
  apply List.filter_congr
  intro e he
  have hkey : e.1 ∈ after.bindings.keys := List.mem_map_of_mem he
  have hiff : e.1 ∉ recorded ↔ e.1 ∉ names :=
    ⟨fun hout hin => h.unbound e.1 hin hout hkey, fun hout hin => hout (h.recorded_subset hin)⟩
  simp only [hiff]

theorem frames_ascend (h : Leaves names recorded ctx.descend after) :
    after.ascend.frames = ctx.frames := by
  have hframes : after.frames = recorded :: ctx.frames := h.frames
  rw [ascend_of_frames hframes]

theorem block (h : Leaves names recorded ctx.descend after) : Leaves names [] ctx after.ascend where
  frames := h.frames_ascend.trans (record_nil ctx.frames).symm
  recorded_subset := List.nil_subset _
  outside := by
    rw [Table.outside, h.entries_ascend, Table.outside, List.filter_filter]
    simp only [Bool.and_self]
  unbound := by
    intro name hname _ hkey
    rw [Table.keys, h.entries_ascend] at hkey
    obtain ⟨e, he, rfl⟩ := List.mem_map.mp hkey
    exact of_decide_eq_true (List.mem_filter.mp he).2 hname

end Leaves

theorem leaves_of_change {c : Change} (hc : c.isBracket = false) (ctx : Context) :
    Leaves c.bound?.toList c.bound?.toList ctx (c.apply ctx) := by
  cases c with
  | set key value => exact .of_eq rfl rfl
  | merge g => exact .of_eq rfl rfl
  | bind name value => exact .bind ctx name value
  | descend => cases hc
  | ascend => cases hc

theorem namesBound_append (changes more : List Change) :
    namesBound (changes ++ more) = namesBound changes ++ namesBound more := List.filterMap_append

theorem namesBound_cons (c : Change) (rest : List Change) :
    namesBound (c :: rest) = c.bound?.toList ++ namesBound rest := by
  cases c <;> rfl

theorem namesBound_block (inner : List Change) : namesBound (block inner) = namesBound inner := by
  change namesBound (inner ++ [.ascend]) = _
  rw [namesBound_append]
  exact List.append_nil _

theorem exists_leaves_of_balanced {changes : List Change} (h : Balanced changes) (ctx : Context) :
    ∃ recorded, Leaves (namesBound changes) recorded ctx (ctx.changed changes) := by
  induction h generalizing ctx with
  | nil => exact ⟨[], .of_eq rfl rfl⟩
  | @cons c rest hc _ ih =>
      obtain ⟨recorded, hrest⟩ := ih (c.apply ctx)
      rw [namesBound_cons]
      exact ⟨_, (leaves_of_change hc ctx).trans hrest⟩
  | @block inner rest _ _ ihinner ihrest =>
      obtain ⟨own, hinner⟩ := ihinner ctx.descend
      obtain ⟨recorded, hrest⟩ := ihrest (ctx.changed (block inner))
      rw [namesBound_append, namesBound_block, changed_append]
      rw [changed_block] at hrest ⊢
      exact ⟨_, hinner.block.trans hrest⟩

/-- A block leaves the frames as they were. It takes out of the bindings every name that was bound
in it, also one that had been bound before, and leaves the others in their order. The tags are
those that setting them without any frame gives. -/
theorem unbinds_block (ctx : Context) {inner : List Change} (h : Balanced inner) :
    let after := ctx.changed (block inner)
    after.frames = ctx.frames ∧
      after.bindings.entries =
        ctx.bindings.entries.filter (fun e => decide (e.1 ∉ namesBound inner)) ∧
      (∀ name ∈ namesBound inner, after.isBound name = false) ∧
      after.tags = (ctx.changed (inner.filter Change.setsTags)).tags := by
  intro after
  obtain ⟨recorded, hinner⟩ := exists_leaves_of_balanced h ctx.descend
  have hafter : after = (ctx.descend.changed inner).ascend := changed_block ctx inner
  rw [hafter]
  refine ⟨hinner.frames_ascend, hinner.entries_ascend, fun name hname => ?_, ?_⟩
  · apply Table.contains_eq_false_iff.mpr
    exact hinner.block.unbound name hname List.not_mem_nil
  · rw [tags_ascend]
    exact tags_changed_filter ctx.tags_descend inner

/-- A beast is bound before, in and behind an inner block, and the inner block binds anew who had
been bound outside. -/
theorem unbinds_block_rebound :
    let ox : Group := ⟨[], Table.insert ∅ "size" "big", ""⟩
    let inner : List Change := [.bind "who" "Eve", .merge ox, .bind "beast" "ox"]
    let changes : List Change :=
      .bind "beast" "hen" :: .set "mood" "glad" :: (block inner ++ [.bind "beast" "cat"])
    let ctx : Context := ⟨∅, .ofList [("who", "Ann"), ("place", "hill")], [["who"]]⟩
    let after := ctx.changed (block changes)
    Balanced changes ∧ after.frames = [["who"]] ∧ after.bindings.entries = [("place", "hill")] ∧
      after.isBound "who" = false ∧
      after.tags.entries = [("mood", "glad"), ("size", "big")] := by
  intro ox inner changes ctx after
  have hinner : Balanced inner := .cons rfl (.cons rfl (.cons rfl .nil))
  have hchanges : Balanced changes := .cons rfl (.cons rfl (.block hinner (.cons rfl .nil)))
  obtain ⟨hframes, hbindings, hunbound, htags⟩ := unbinds_block ctx hchanges
  exact ⟨hchanges, hframes, hbindings, hunbound "who" (by decide), congrArg Table.entries htags⟩

end Context

end TaggedGrammar
