import TaggedGrammar.Expansion.State

/-!
# Series of expansions

The same step is made a number of times, always from the same context, on the draws that the
steps before it left. The first step that fails ends the series.
-/

namespace TaggedGrammar

/-- The texts of a series up to the first failure, what happened in it, and the stream of draws
that it leaves. -/
structure Series where
  texts : List String
  events : List Event
  failure : Option ExpansionError
  chance : Chance

namespace Series

/-- Makes a step `count` times from a context. -/
def run (step : Step String) (context : Context) : Nat → Chance → Series
  | 0, chance => ⟨[], [], none, chance⟩
  | count + 1, chance =>
    match step (.start context chance) with
    | (.error e, s) => ⟨[], s.events.toList, some e, s.chance⟩
    | (.ok text, s) =>
      let rest := run step context count s.chance
      { rest with texts := text :: rest.texts, events := s.events.toList ++ rest.events }

end Series

end TaggedGrammar
