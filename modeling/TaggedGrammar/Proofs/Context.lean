import TaggedGrammar.Context
import TaggedGrammar.Proofs.Table

/-!
# What contexts do

Accepting a group is agreeing with its tags. A name that is bound goes into the innermost
frame, and closing a frame takes the names in it out of the bindings and leaves the tags.

## Main statements

* `Context.accepts_iff`: a context accepts the groups whose tags agree with its own.
* `Context.ascend_of_frames`: what closing a frame does.
-/

namespace TaggedGrammar

namespace Context

/-! ### Tags -/

theorem accepts_iff {ctx : Context} {g : Group} :
    ctx.accepts g = true ↔ ctx.tags.Agrees g.tags := by
  simp only [accepts, List.all_eq_true]
  constructor
  · intro h k v w hv hw
    have hk := h (k, v) (Table.get?_eq_some_iff.mp hv)
    simp only [hw, beq_iff_eq] at hk
    exact hk.symm
  · intro h e he
    cases hw : g.tags.get? e.1 with
    | none => rfl
    | some w => simpa using (h e.1 e.2 w (Table.get?_eq_some_iff.mpr he) hw).symm

/-! ### Bindings and frames -/

theorem isBound_eq_false_iff {ctx : Context} {name : String} :
    ctx.isBound name = false ↔ ctx.binding? name = none :=
  Table.contains_eq_false_iff_get?

/-- Adds names to the innermost frame, if there is one. -/
def record (names : List String) : List (List String) → List (List String)
  | [] => []
  | frame :: rest => (frame ++ names) :: rest

@[simp] theorem record_nil (frames : List (List String)) : record [] frames = frames := by
  cases frames with
  | nil => rfl
  | cons frame rest => simp [record]

theorem record_append (names more : List String) (frames : List (List String)) :
    record (names ++ more) frames = record more (record names frames) := by
  cases frames with
  | nil => rfl
  | cons frame rest => simp [record]

theorem frames_bind (ctx : Context) (name value : String) :
    (ctx.bind name value).frames = record [name] ctx.frames := by
  unfold bind record
  cases ctx.frames with
  | nil => rfl
  | cons frame rest => rfl

theorem depth_bind (ctx : Context) (name value : String) :
    (ctx.bind name value).depth = ctx.depth := by
  rw [depth, depth, frames_bind]
  cases ctx.frames with
  | nil => rfl
  | cons frame rest => rfl

theorem foldl_unbind (ctx : Context) (names : List String) :
    names.foldl unbind ctx = { ctx with bindings := names.foldl Table.erase ctx.bindings } := by
  induction names generalizing ctx with
  | nil => rfl
  | cons name names ih =>
      rw [List.foldl_cons, ih]
      rfl

theorem ascend_of_frames {ctx : Context} {frame : List String} {rest : List (List String)}
    (h : ctx.frames = frame :: rest) :
    ctx.ascend =
      { ctx with bindings := frame.foldl Table.erase ctx.bindings, frames := rest } := by
  unfold ascend
  rw [h]
  exact foldl_unbind _ frame

theorem depth_ascend_le (ctx : Context) : ctx.ascend.depth ≤ ctx.depth := by
  cases h : ctx.frames with
  | nil => simp only [ascend, h, Nat.le_refl]
  | cons frame rest =>
      rw [ascend_of_frames h, depth, depth, h]
      exact Nat.le_succ _

@[simp] theorem tags_ascend (ctx : Context) : ctx.ascend.tags = ctx.tags := by
  cases h : ctx.frames with
  | nil => simp only [ascend, h]
  | cons frame rest => rw [ascend_of_frames h]

end Context

end TaggedGrammar
