import TaggedGrammar.Context
import TaggedGrammar.Expansion.Chance
import TaggedGrammar.Expansion.Error

/-!
# The state of an expansion

An expansion reads and changes a context, takes draws from a stream and leaves a record of
what happened. All of this is kept when it fails, so a step answers with a result or an error
and in both cases with a state.
-/

namespace TaggedGrammar

/-- What happened in an expansion. -/
inductive Event where
  /-- The expansion of a cognate was asked for while so many frames were open. -/
  | requested (name : String) (frames : Nat)
  /-- The rule at an index among all that were suitable was chosen for a cognate. -/
  | selected (name : String) (group : Group) (rule : Rule) (index total : Nat)
  /-- The expansion of a sticky reference was bound to its name. -/
  | stuck (name value : String)
  /-- The expansion of a cognate was assigned to a name. -/
  | assigned (name value : String)
deriving DecidableEq

/-- The line that the log shows for an event, if it shows one. -/
def Event.line? : Event → Option String
  | requested _ _ => none
  | selected name _ rule index total =>
    let place := s!"({index + 1} of {total} rules)"
    some s!"{name}: selected {Text.quoted rule.literal} {place}"
  | stuck name value => some s!"sticky {name} = {Text.quoted value}"
  | assigned name value => some s!"assign {name} = {Text.quoted value}"

/-- The context, the stream of draws and the record of an expansion. -/
structure State where
  context : Context
  chance : Chance
  events : Array Event

namespace State

/-- The state before anything has happened. -/
def start (context : Context) (chance : Chance) : State := ⟨context, chance, #[]⟩

/-- Changes the context. -/
def withContext (s : State) (context : Context) : State := { s with context := context }

/-- Adds to the record. -/
def note (s : State) (e : Event) : State := { s with events := s.events.push e }

/-- Takes a draw. -/
def draw (s : State) (lower upper : Int) : State := { s with chance := s.chance.draw lower upper }

@[simp] theorem context_withContext (s : State) (c : Context) : (s.withContext c).context = c := rfl

@[simp] theorem chance_withContext (s : State) (c : Context) :
    (s.withContext c).chance = s.chance := rfl

@[simp] theorem events_withContext (s : State) (c : Context) :
    (s.withContext c).events = s.events := rfl

@[simp] theorem context_note (s : State) (e : Event) : (s.note e).context = s.context := rfl

@[simp] theorem chance_note (s : State) (e : Event) : (s.note e).chance = s.chance := rfl

@[simp] theorem events_note (s : State) (e : Event) : (s.note e).events = s.events.push e := rfl

@[simp] theorem context_draw (s : State) (lower upper : Int) :
    (s.draw lower upper).context = s.context := rfl

@[simp] theorem chance_draw (s : State) (lower upper : Int) :
    (s.draw lower upper).chance = s.chance.draw lower upper := rfl

@[simp] theorem events_draw (s : State) (lower upper : Int) :
    (s.draw lower upper).events = s.events := rfl

end State

/-- A step from state to state that answers with a value or fails. -/
abbrev Step (α : Type) := State → Except ExpansionError α × State

namespace Step

/-- Answers with a value. -/
def pure {α : Type} (a : α) : Step α := fun s => (.ok a, s)

/-- Fails. -/
def fail {α : Type} (e : ExpansionError) : Step α := fun s => (.error e, s)

/-- Goes on with the value of a step, or stops where it fails. -/
def andThen {α β : Type} (step : Step α) (next : α → Step β) : Step β := fun s =>
  match step s with
  | (.ok a, t) => next a t
  | (.error e, t) => (.error e, t)

/-- Changes the value of a step. -/
def map {α β : Type} (f : α → β) (step : Step α) : Step β := fun s =>
  match step s with
  | (.ok a, t) => (.ok (f a), t)
  | (.error e, t) => (.error e, t)

/-- Opens a frame before a step and closes it afterwards, whether the step fails or not. -/
def inFrame {α : Type} (step : Step α) : Step α := fun s =>
  let (result, t) := step (s.withContext s.context.descend)
  (result, t.withContext t.context.ascend)

end Step

end TaggedGrammar
