import TaggedGrammar.Grammar.Cognate
import TaggedGrammar.Text.Listing

/-!
# Contexts

A context is the state that an expansion reads and changes: tags, which only ever gather, and
bindings of names to texts. A frame is opened for every expansion of a cognate; it records the
names bound while it is the innermost one, and closing it unbinds them.
-/

namespace TaggedGrammar

/-- Tags, bindings and open frames. -/
structure Context where
  tags : Table String
  bindings : Table String
  /-- The names bound in each open frame, in the order of binding; the innermost frame comes
  first. -/
  frames : List (List String)
deriving DecidableEq

namespace Context

/-- The context of given tags and bindings, without open frames. -/
def ofTables (tags bindings : Table String) : Context := ⟨tags, bindings, []⟩

/-- The context without tags and bindings. -/
def empty : Context := ofTables ∅ ∅

/-- The number of open frames. -/
def depth (ctx : Context) : Nat := ctx.frames.length

/-- Sets a tag. -/
def set (ctx : Context) (key value : String) : Context :=
  { ctx with tags := ctx.tags.insert key value }

/-- Sets every tag of a group. -/
def merge (ctx : Context) (g : Group) : Context :=
  { ctx with tags := ctx.tags.insertMany g.tags.entries }

/-- Whether the group has the same value for every tag of the context that it has at all. -/
def accepts (ctx : Context) (g : Group) : Bool :=
  ctx.tags.entries.all fun (key, value) =>
    match g.tags.get? key with
    | some other => other == value
    | none => true

/-- Binds a name and records it in the innermost frame, if there is one. -/
def bind (ctx : Context) (name value : String) : Context :=
  { ctx with
    bindings := ctx.bindings.insert name value
    frames := match ctx.frames with
      | [] => []
      | frame :: rest => (frame ++ [name]) :: rest }

/-- Unbinds a name. -/
def unbind (ctx : Context) (name : String) : Context :=
  { ctx with bindings := ctx.bindings.erase name }

/-- The text bound to a name. -/
def binding? (ctx : Context) (name : String) : Option String := ctx.bindings.get? name

/-- Whether a name is bound. -/
def isBound (ctx : Context) (name : String) : Bool := ctx.bindings.contains name

/-- Opens a frame. -/
def descend (ctx : Context) : Context := { ctx with frames := [] :: ctx.frames }

/-- Closes the innermost frame, if there is one, and unbinds the names recorded in it. -/
def ascend (ctx : Context) : Context :=
  match ctx.frames with
  | [] => ctx
  | frame :: rest => frame.foldl unbind { ctx with frames := rest }

/-- The tags and bindings without the open frames. -/
def copy (ctx : Context) : Context := ofTables ctx.tags ctx.bindings

/-- The context in words. -/
def summary (ctx : Context) : String :=
  s!"Context(tags={Text.listing ctx.tags}, bindings={Text.listing ctx.bindings}, " ++
    s!"depth={ctx.depth})"

@[simp] theorem depth_descend (ctx : Context) : ctx.descend.depth = ctx.depth + 1 := rfl

@[simp] theorem tags_descend (ctx : Context) : ctx.descend.tags = ctx.tags := rfl

@[simp] theorem bindings_descend (ctx : Context) : ctx.descend.bindings = ctx.bindings := rfl

end Context

end TaggedGrammar
