import TaggedGrammar.Proofs.Expansion.Law

/-!
# Scopes unwind

Closing a frame only removes names; it never brings an older text back. The bindings of the
caller are safe all the same, since a name is bound only where it is not bound already. What
the tokens of a frame bind stands behind the bindings from before, under the names that the
frame has recorded, so closing the frame takes out exactly that.

## Main statements

* `scopeLaw`: `Grown` and `Unwound` make a law.
* `Grammar.unwound_generateWith_expandWith`: both entry points leave bindings and frames as
  they found them, however they end.
-/

namespace TaggedGrammar

/-- Every name that was bound between the two states was unbound in the first. -/
def BindsUnbound (s t : State) : Prop :=
  ∃ events, s.Recorded events t ∧ ∀ e ∈ events, ∀ name value,
    e.bound? = some (name, value) → s.context.isBound name = false

/-- The bindings and the innermost frame have only grown, by the same names in the same
order. -/
structure Grown (s t : State) : Prop where
  added : ∃ added : List (String × String),
    t.context.bindings.entries = s.context.bindings.entries ++ added ∧
      t.context.frames = Context.record (added.map Prod.fst) s.context.frames
  binds : BindsUnbound s t

/-- The bindings and the frames are as they were, and no name was bound over. -/
structure Unwound (s t : State) : Prop where
  bindings : t.context.bindings = s.context.bindings
  frames : t.context.frames = s.context.frames
  binds : BindsUnbound s t

/-! ### Names that are bound -/

theorem BindsUnbound.refl (s : State) : BindsUnbound s s :=
  ⟨[], .refl s, fun _ he => nomatch he⟩

/-- A name that is not bound later was not bound before, where bindings are only added. -/
theorem isBound_of_extends {s t : State}
    (h : s.context.bindings.entries <+: t.context.bindings.entries) {name : String}
    (hn : t.context.isBound name = false) : s.context.isBound name = false := by
  rw [Context.isBound_eq_false_iff] at *
  cases hv : s.context.binding? name with
  | none => rfl
  | some value =>
      have ht : t.context.binding? name = some value := Table.get?_of_extends h hv
      rw [ht] at hn
      cases hn

theorem BindsUnbound.trans {s t u : State}
    (hst : s.context.bindings.entries <+: t.context.bindings.entries)
    (h : BindsUnbound s t) (h' : BindsUnbound t u) : BindsUnbound s u := by
  obtain ⟨es, hes, hb⟩ := h
  obtain ⟨fs, hfs, hb'⟩ := h'
  refine ⟨es ++ fs, hes.trans hfs, ?_⟩
  intro e he name value hv
  rcases List.mem_append.mp he with he | he
  · exact hb e he name value hv
  · exact isBound_of_extends hst (hb' e he name value hv)

/-- An event may follow that binds no name which was bound at first. -/
theorem BindsUnbound.note {s t : State} (h : BindsUnbound s t) {event : Event}
    (he : ∀ name value, event.bound? = some (name, value) → s.context.isBound name = false) :
    BindsUnbound s (t.note event) := by
  obtain ⟨es, hes, hb⟩ := h
  refine ⟨es ++ [event], hes.trans (t.recorded_note event), ?_⟩
  intro e hm
  rcases List.mem_append.mp hm with hm | hm
  · exact hb e hm
  · rw [List.mem_singleton.mp hm]
    exact he

/-! ### The law -/

theorem Grown.of_context {s t : State} (hb : t.context.bindings = s.context.bindings)
    (hf : t.context.frames = s.context.frames) (h : BindsUnbound s t) : Grown s t :=
  ⟨⟨[], by rw [hb, List.append_nil], by rw [hf, List.map_nil, Context.record_nil]⟩, h⟩

theorem Unwound.grown {s t : State} (h : Unwound s t) : Grown s t :=
  .of_context h.bindings h.frames h.binds

theorem Grown.trans {s t u : State} (h : Grown s t) (h' : Grown t u) : Grown s u := by
  obtain ⟨added, hb, hf⟩ := h.added
  obtain ⟨more, hb', hf'⟩ := h'.added
  refine ⟨⟨added ++ more, ?_, ?_⟩, h.binds.trans ⟨added, hb.symm⟩ h'.binds⟩
  · rw [hb', hb, List.append_assoc]
  · rw [hf', hf, List.map_append, Context.record_append]

theorem Unwound.trans {s t u : State} (h : Unwound s t) (h' : Unwound t u) : Unwound s u :=
  ⟨h'.bindings.trans h.bindings, h'.frames.trans h.frames,
    h.binds.trans (h.bindings ▸ List.prefix_rfl) h'.binds⟩

theorem Unwound.entries_bound {s t : State} {name : String} (h : Unwound s t)
    (hn : s.context.isBound name = false) (value : String) (event : Event) :
    (t.bound name value event).context.bindings.entries =
      s.context.bindings.entries ++ [(name, value)] := by
  have hkey : name ∉ t.context.bindings.keys := by
    rw [h.bindings]
    exact Table.contains_eq_false_iff.mp hn
  change (t.context.bindings.insert name value).entries = _
  rw [Table.entries_insert_of_not_mem hkey, h.bindings]

theorem Unwound.frames_bound {s t : State} (h : Unwound s t) (name value : String)
    (event : Event) :
    (t.bound name value event).context.frames = Context.record [name] s.context.frames := by
  change (t.context.bind name value).frames = _
  rw [Context.frames_bind, h.frames]

/-- Binding a name that is unbound puts it behind the bindings and into the frame. -/
theorem Unwound.bound {s t : State} {name value : String} {event : Event}
    (h : Unwound s t) (hn : s.context.isBound name = false)
    (he : event.bound? = some (name, value)) : Grown s (t.bound name value event) := by
  refine ⟨⟨[(name, value)], h.entries_bound hn value event, h.frames_bound name value event⟩,
    h.binds.note fun n v hv => ?_⟩
  obtain ⟨rfl, -⟩ := Prod.mk.inj (Option.some.inj (he.symm.trans hv))
  exact hn

/-- Closing the frame takes out exactly what was bound in it. -/
theorem Grown.closed {s t : State} (h : Grown s.opened t) : Unwound s t.closed := by
  obtain ⟨added, hb, hf⟩ := h.added
  have hframes : t.context.frames = added.map Prod.fst :: s.context.frames := hf
  have hclosed := Context.ascend_of_frames hframes
  refine ⟨?_, ?_, h.binds⟩
  · change t.context.ascend.bindings = _
    rw [hclosed]
    exact Table.foldl_erase_added hb
  · change t.context.ascend.frames = _
    rw [hclosed]

theorem scopeLaw : StateLaw Grown Unwound where
  inner_trans _ _ _ := Grown.trans
  inner_of_outer _ _ := Unwound.grown
  outer_refl s := ⟨rfl, rfl, .refl s⟩
  outer_trans _ _ _ := Unwound.trans
  draw s _ _ := .of_context rfl rfl (.refl s)
  choose s _ _ _ _ _ _ :=
    .of_context rfl rfl ((BindsUnbound.refl s).note fun _ _ hv => nomatch hv)
  bind hn h he := h.bound hn he
  request s _ := ⟨rfl, rfl, (BindsUnbound.refl s).note fun _ _ hv => nomatch hv⟩
  frame := Grown.closed

/-- After the expansion of a cognate or of a template, whether it gave a text or failed, the
bindings and the open frames are exactly those from before, and on the way no name was bound
that was bound before. -/
theorem Grammar.unwound_generateWith_expandWith (g : Grammar) (s : State) :
    (∀ name, Unwound s (g.generateWith name s).2) ∧
      ∀ literal, Unwound s (g.expandWith literal s).2 :=
  ⟨fun name => scopeLaw.generateWith g name s, fun literal => scopeLaw.expandWith g literal s⟩

end TaggedGrammar
