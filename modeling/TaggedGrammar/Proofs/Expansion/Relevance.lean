import TaggedGrammar.Proofs.Expansion.Comparison
import TaggedGrammar.Proofs.Expansion.Progress

/-!
# What a grammar does not look at

The tags of a context only matter where a group sets the same key, and its bindings only where a
token looks up the same name. Two contexts that agree there have the same expansions, on the same
draws. Whatever else stands in them is left as it is: the same tags are put behind those of both,
and their bindings and frames are in the end what they were at first. Only the failure for want of
suitable groups shows more, since it lists all tags.

## Main statements

* `Table.grewAlike_insertMany`: tables that agree on the keys that are written grow alike.
* `growingAlike_law`: two runs that agree where they look, and put the same tags behind theirs.
* `Grammar.growingAlike_self`: a grammar has such runs from states that agree where it looks.
* `Grammar.unaffected_of_sameFor`: data that the grammar does not look at do not matter.

## Implementation notes

The two contexts need not have the same frames, only as many. The frames that are open at first
are still open in the end, so the names in them are never unbound.
-/

namespace TaggedGrammar

/-! ### What is looked at -/

namespace Grammar

/-- The keys of the tags of all groups. -/
def tagKeys (g : Grammar) : Set String :=
  {key | ∃ c ∈ g.toList, ∃ group ∈ c.groups, key ∈ group.tags.keys}

/-- The names that the tokens of all rules may look up. -/
def lookups (g : Grammar) : Set String :=
  {name | ∃ c ∈ g.toList, ∃ token ∈ c.tokens, name ∈ token.lookups}

end Grammar

/-- The names that the tokens of a template may look up, if it can be read. -/
def templateLookups (literal : String) : Set String :=
  {name | ∃ rule, Rule.ofLiteral literal = .ok rule ∧ ∃ token ∈ rule.tokens, name ∈ token.lookups}

/-! ### Tables that agree on keys -/

namespace Table

variable {α : Type} {K : Set String} {s s' t t' u u' : Table α}

/-- The two tables have the same values at the keys of the set, where they have any. -/
def SameAt (K : Set String) (s s' : Table α) : Prop := ∀ k ∈ K, s'.get? k = s.get? k

theorem SameAt.insert (h : SameAt K s s') (k : String) (v : α) :
    SameAt K (s.insert k v) (s'.insert k v) := by
  intro k' hk'
  rw [get?_insert, get?_insert, h k' hk']

/-- Both tables have got the same entries behind those that they had, at keys of the set. -/
def GrewAlike (K : Set String) (s s' t t' : Table α) : Prop :=
  ∃ added, (∀ e ∈ added, e.1 ∈ K) ∧ t.entries = s.entries ++ added ∧
    t'.entries = s'.entries ++ added

theorem GrewAlike.refl (s s' : Table α) : GrewAlike K s s' s s' :=
  ⟨[], by simp, (List.append_nil _).symm, (List.append_nil _).symm⟩

theorem GrewAlike.trans (h : GrewAlike K s s' t t') (h' : GrewAlike K t t' u u') :
    GrewAlike K s s' u u' := by
  obtain ⟨added, hkeys, ht, ht'⟩ := h
  obtain ⟨more, hmore, hu, hu'⟩ := h'
  refine ⟨added ++ more, ?_, ?_, ?_⟩
  · intro e he
    rcases List.mem_append.mp he with he | he
    · exact hkeys e he
    · exact hmore e he
  · rw [hu, ht, List.append_assoc]
  · rw [hu', ht', List.append_assoc]

theorem GrewAlike.sameAt (h : GrewAlike K s s' t t') (hs : SameAt K s s') : SameAt K t t' := by
  obtain ⟨added, -, ht, ht'⟩ := h
  intro k hk
  have hk' : s'.entries.lookup k = s.entries.lookup k := hs k hk
  rw [get?, get?, ht, ht', List.lookup_append, List.lookup_append, hk']

/-- A value that agrees with the tables is there already in both of them, or it is new in both. -/
theorem grewAlike_insert (hs : SameAt K s s') {k : String} {v : α} (hk : k ∈ K)
    (h : ∀ w, s.get? k = some w → w = v) :
    GrewAlike K s s' (s.insert k v) (s'.insert k v) := by
  have hget : s'.get? k = s.get? k := hs k hk
  cases hv : s.get? k with
  | some w =>
      obtain rfl := h w hv
      rw [insert_of_get? hv, insert_of_get? (hget.trans hv)]
      exact .refl s s'
  | none =>
      refine ⟨[(k, v)], ?_, ?_, ?_⟩
      · intro e he
        obtain rfl := List.mem_singleton.mp he
        exact hk
      · exact entries_insert_of_not_mem (get?_eq_none_iff.mp hv)
      · exact entries_insert_of_not_mem (get?_eq_none_iff.mp (hget.trans hv))

theorem grewAlike_insertMany (hs : SameAt K s s') {es : List (String × α)}
    (hes : (es.map Prod.fst).Nodup) (hkeys : ∀ e ∈ es, e.1 ∈ K)
    (h : ∀ k v w, (k, v) ∈ es → s.get? k = some w → w = v) :
    GrewAlike K s s' (s.insertMany es) (s'.insertMany es) := by
  induction es generalizing s s' with
  | nil => exact .refl s s'
  | cons e es ih =>
      obtain ⟨hne, hes⟩ := List.nodup_cons.mp hes
      obtain ⟨he, hkeys⟩ := List.forall_mem_cons.mp hkeys
      have hfirst : GrewAlike K s s' (s.insert e.1 e.2) (s'.insert e.1 e.2) :=
        grewAlike_insert hs he fun w hw => h e.1 e.2 w List.mem_cons_self hw
      refine hfirst.trans (ih (hs.insert e.1 e.2) hes hkeys ?_)
      intro k v w hm hw
      have hk : k ≠ e.1 := fun hk => hne (hk ▸ List.mem_map_of_mem hm)
      rw [get?_insert_of_ne hk] at hw
      exact h k v w (List.mem_cons_of_mem _ hm) hw

end Table

/-! ### Runs that are alike -/

section Runs

variable {K N : Set String} {α : Type}

/-- The two states have as many frames and the same draws, and they agree on the tags and on the
bindings of the sets. -/
structure State.SameFor (K N : Set String) (s s' : State) : Prop where
  tags : Table.SameAt K s.context.tags s'.context.tags
  bindings : Table.SameAt N s.context.bindings s'.context.bindings
  depth : s'.context.depth = s.context.depth
  chance : s'.chance = s.chance

/-- The same value or the same error, but that of two failures for want of suitable groups each
lists the tags of its own context. -/
inductive SameResult (K : Set String) (tags tags' : Table String) :
    Except ExpansionError α → Except ExpansionError α → Prop where
  | same (result : Except ExpansionError α) : SameResult K tags tags' result result
  | noSuitableGroups (name : String) {listed listed' : Table String}
      (h : Table.GrewAlike K tags tags' listed listed') :
      SameResult K tags tags' (.error (.noSuitableGroups name listed))
        (.error (.noSuitableGroups name listed'))

/-- Two runs from contexts with the given tags: they end alike, and the same tags were put behind
those of both. -/
structure RunsAlike (K N : Set String) (tags tags' : Table String)
    (r r' : Except ExpansionError α × State) : Prop where
  result : SameResult K tags tags' r.1 r'.1
  grewAlike : Table.GrewAlike K tags tags' r.2.context.tags r'.2.context.tags
  sameFor : r.2.SameFor K N r'.2

variable {s s' : State}

/-! ### The law -/

/-- Two runs from contexts with the given tags agree on the sets, and the same tags were put behind
those of both. -/
def growingAlike (K N : Set String) (tags tags' : Table String) : Comparison where
  states s s' := s.SameFor K N s' ∧ Table.GrewAlike K tags tags' s.context.tags s'.context.tags
  errors e e' := SameResult K tags tags' (Except.error (α := String) e) (Except.error e')
  waives _ := False

theorem State.tags_closed (s : State) : s.closed.context.tags = s.context.tags :=
  s.context.tags_ascend

theorem growingAlike_law (K N : Set String) (tags tags' : Table String) :
    (growingAlike K N tags tags').Law N where
  binding?_eq h := h.1.bindings
  chance_eq h := h.1.chance
  errors_self e _ := .same (.error e)
  draw lower upper h :=
    ⟨⟨h.1.tags, h.1.bindings, h.1.depth, congrArg (Chance.draw · lower upper) h.1.chance⟩, h.2⟩
  bind {s s' name} value event h _ := by
    refine ⟨⟨h.1.tags, h.1.bindings.insert name value, ?_, h.1.chance⟩, h.2⟩
    rw [State.depth_bound, State.depth_bound, h.1.depth]
  request _ h := ⟨⟨h.1.tags, h.1.bindings, h.1.depth, h.1.chance⟩, h.2⟩
  opened h := ⟨⟨h.1.tags, h.1.bindings, congrArg (· + 1) h.1.depth, h.1.chance⟩, h.2⟩
  -- With frames closed the bindings and the frames are those from before, which agreed as well.
  closed {s s' t t'} h ht hclosed hclosed' := by
    refine ⟨⟨?_, ?_, ?_, ht.1.chance⟩, ?_⟩
    · rw [State.tags_closed, State.tags_closed]
      exact ht.1.tags
    · rw [hclosed.bindings, hclosed'.bindings]
      exact h.1.bindings
    · rw [Context.depth, Context.depth, hclosed.frames, hclosed'.frames]
      exact h.1.depth
    · rw [State.tags_closed, State.tags_closed]
      exact ht.2

theorem runsAlike_of_ends {tags tags' : Table String}
    {r r' : Except ExpansionError String × State}
    (h : (growingAlike K N tags tags').Ends Eq r r') : RunsAlike K N tags tags' r r' := by
  cases h with
  | ok ha ht =>
      obtain rfl := ha
      exact ⟨.same _, ht.2, ht.1⟩
  | error he ht => exact ⟨he, ht.2, ht.1⟩
  | waived he => exact he.elim

end Runs

/-! ### Cognates and entry points -/

section Cognates

variable {K N : Set String}

/-- Whether a group is accepted only depends on the tags at its own keys. -/
theorem Context.accepts_eq {ctx ctx' : Context} (h : Table.SameAt K ctx.tags ctx'.tags)
    {group : Group} (hkeys : ∀ key ∈ group.tags.keys, key ∈ K) :
    ctx'.accepts group = ctx.accepts group := by
  have hget {k w : String} (hw : group.tags.get? k = some w) :
      ctx'.tags.get? k = ctx.tags.get? k :=
    h k (hkeys k (List.mem_map_of_mem (Table.get?_eq_some_iff.mp hw)))
  rw [Bool.eq_iff_iff, accepts_iff, accepts_iff]
  constructor
  · intro hagrees k v w hv hw
    exact hagrees k v w ((hget hw).trans hv) hw
  · intro hagrees k v w hv hw
    exact hagrees k v w ((hget hw).symm.trans hv) hw

/-- The tags of a group that is accepted are new in both contexts, or there in both already. -/
theorem Context.grewAlike_merge {ctx ctx' : Context} (h : Table.SameAt K ctx.tags ctx'.tags)
    {group : Group} (haccepts : ctx.accepts group = true)
    (hkeys : ∀ key ∈ group.tags.keys, key ∈ K) :
    Table.GrewAlike K ctx.tags ctx'.tags (ctx.merge group).tags (ctx'.merge group).tags := by
  apply Table.grewAlike_insertMany h group.tags.nodup
  · intro e he
    exact hkeys e.1 (List.mem_map_of_mem he)
  · intro k v w hm hw
    exact accepts_iff.mp haccepts k w v hw (Table.get?_eq_some_iff.mpr hm)

namespace Grammar

variable {g : Grammar}

theorem suitable_eq {ctx ctx' : Context} (h : Table.SameAt K ctx.tags ctx'.tags) {c : Cognate}
    (hkeys : ∀ group ∈ c.groups, ∀ key ∈ group.tags.keys, key ∈ K) :
    suitable ctx' c = suitable ctx c :=
  List.filter_congr fun group hgroup => Context.accepts_eq h (hkeys group hgroup)

/-- A grammar only looks at the tags that some group sets and at the names that some rule looks
up. -/
theorem growingAlike_self (hkeys : g.tagKeys ⊆ K) (hlookups : g.lookups ⊆ N)
    (tags tags' : Table String) : (growingAlike K N tags tags').Grammars g g 0 where
  select name := by
    intro s s' hs
    have hgroups {c : Cognate} (hc : g.get? name = some c) :
        ∀ group ∈ c.groups, ∀ key ∈ group.tags.keys, key ∈ K :=
      fun group hgroup key hkey => hkeys ⟨c, mem_toList_of_get? hc, group, hgroup, hkey⟩
    apply (growingAlike_law K N tags tags').select hs
    · exact fun c hc => suitable_eq hs.1.tags (hgroups hc)
    · exact .noSuitableGroups name hs.2
    · intro c group rule index total hc hgroup hrule
      obtain ⟨hmem, haccepts⟩ := List.mem_filter.mp hgroup
      have hgrew := Context.grewAlike_merge hs.1.tags haccepts (hgroups hc group hmem)
      refine ⟨(growingAlike_law K N tags tags').tokens fun token ht n hn => ?_,
        ⟨hgrew.sameAt hs.1.tags, hs.1.bindings, hs.1.depth, ?_⟩, hs.2.trans hgrew⟩
      · exact hlookups ⟨c, mem_toList_of_get? hc, token, Cognate.mem_tokens hmem hrule ht, hn⟩
      · exact congrArg (Chance.draw · 0 _) hs.1.chance
  last name := (growingAlike_law K N tags tags').last (.same _)

theorem levels_opened_eq_of_depth {s s' : State} (h : s'.context.depth = s.context.depth) :
    g.levels s'.opened.context = g.levels s.opened.context := by
  change (g.maxDepth - ((s'.context.depth + 1 : Nat) : Int)).toNat = _
  rw [h]
  rfl

/-- The two runs end alike, and each leaves the bindings and the frames of its own context as they
were and only puts tags behind those of it, the same in both. -/
structure Unaffected (K N : Set String) (s s' : State)
    (r r' : Except ExpansionError String × State) : Prop where
  alike : RunsAlike K N s.context.tags s'.context.tags r r'
  unwound : Unwound s r.2
  unwound' : Unwound s' r'.2

/-- The expansion of a cognate depends on no tags but those with the key of some group, and on no
bindings but those that some rule may look up; that of a template depends on what it looks up
itself as well. Everything else in a context makes no difference and is kept, whether the
expansion gives a text or fails. -/
theorem unaffected_of_sameFor (g : Grammar) (s s' : State) :
    (s.SameFor g.tagKeys g.lookups s' → ∀ name,
      Unaffected g.tagKeys g.lookups s s' (g.generateWith name s) (g.generateWith name s')) ∧
    ∀ literal, s.SameFor g.tagKeys (g.lookups ∪ templateLookups literal) s' →
      Unaffected g.tagKeys (g.lookups ∪ templateLookups literal) s s'
        (g.expandWith literal s) (g.expandWith literal s') := by
  constructor
  · intro hs name
    have hlevels : g.levels s'.context = g.levels s.context := by rw [levels, levels, hs.depth]
    have hends := (growingAlike_self subset_rfl subset_rfl s.context.tags
      s'.context.tags).generateWith (growingAlike_law ..) ⟨hs, .refl _ _⟩ hlevels name
    exact ⟨runsAlike_of_ends hends, scopeLaw.generateWith g name s,
      scopeLaw.generateWith g name s'⟩
  · intro literal hs
    let law := growingAlike_law g.tagKeys (g.lookups ∪ templateLookups literal) s.context.tags
      s'.context.tags
    have hends := (growingAlike_self subset_rfl Set.subset_union_left s.context.tags
      s'.context.tags).expandWith law ⟨hs, .refl _ _⟩ (levels_opened_eq_of_depth hs.depth)
      fun rule hrule => law.tokens fun token ht name hn => Or.inr ⟨rule, hrule, token, ht, hn⟩
    exact ⟨runsAlike_of_ends hends, scopeLaw.expandWith g literal s,
      scopeLaw.expandWith g literal s'⟩

end Grammar

end Cognates

/-- Neither the weather nor the guest matters to the farm. Where no beast is of the size that is
asked for, both tales fail, and one of them tells of the weather too. -/
theorem unaffected_farm :
    let tags : Table String := Table.insert ∅ "size" "huge"
    let s : State := .start ⟨tags, ∅, []⟩ (.ofArray #[0])
    let s' : State :=
      .start ⟨tags.insert "weather" "rain", Table.insert ∅ "guest" "Ann", []⟩ (.ofArray #[0])
    let names := farm.lookups ∪ templateLookups "<$b:beast>"
    s.SameFor farm.tagKeys farm.lookups s' ∧ s.SameFor farm.tagKeys names s' ∧
      (farm.generateWith "tale" s).1 = .error (.noSuitableGroups "beast" tags) ∧
      (farm.generateWith "tale" s').1 =
        .error (.noSuitableGroups "beast" (tags.insert "weather" "rain")) ∧
      Grammar.Unaffected farm.tagKeys farm.lookups s s'
        (farm.generateWith "tale" s) (farm.generateWith "tale" s') ∧
      Grammar.Unaffected farm.tagKeys names s s'
        (farm.expandWith "<$b:beast>" s) (farm.expandWith "<$b:beast>" s') := by
  intro tags s s' names
  have hkeys : ∀ c ∈ farm.toList, ∀ group ∈ c.groups, ∀ key ∈ group.tags.keys, key = "size" := by
    decide
  have hlookups : ∀ c ∈ farm.toList, ∀ token ∈ c.tokens, ∀ name ∈ token.lookups,
      name = "beast" := by decide
  have hrule : Rule.ofLiteral "<$b:beast>" = .ok ⟨"<$b:beast>", [.assignment "b" "beast"]⟩ := by
    decide +kernel
  have htags : Table.SameAt farm.tagKeys s.context.tags s'.context.tags := by
    rintro key ⟨c, hc, group, hgroup, hkey⟩
    rw [hkeys c hc group hgroup key hkey]
    rfl
  have hbindings : Table.SameAt names s.context.bindings s'.context.bindings := by
    rintro name (⟨c, hc, token, ht, hn⟩ | ⟨rule, hr, token, ht, hn⟩)
    · rw [hlookups c hc token ht name hn]
      rfl
    · obtain rfl := Except.ok.inj (hrule.symm.trans hr)
      obtain rfl := List.mem_singleton.mp ht
      obtain rfl := List.mem_singleton.mp hn
      rfl
  have hnames : s.SameFor farm.tagKeys names s' := ⟨htags, hbindings, rfl, rfl⟩
  have hfarm : s.SameFor farm.tagKeys farm.lookups s' :=
    ⟨htags, fun name hname => hbindings name (Or.inl hname), rfl, rfl⟩
  obtain ⟨hgenerate, hexpand⟩ := farm.unaffected_of_sameFor s s'
  exact ⟨hfarm, hnames, rfl, rfl, hgenerate hfarm "tale", hexpand "<$b:beast>" hnames⟩

end TaggedGrammar
