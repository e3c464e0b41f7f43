import Mathlib.Data.List.Infix
import Mathlib.Logic.Function.Iterate
import TaggedGrammar.Expansion.Series

/-!
# Calls of a series

A series calls the same step again and again, and a call hands on to the next only the draws that
it leaves. What a call gives is therefore told without the series: it is the step in the context
that all calls have, on the draws that so many calls before it leave. A series makes its calls up
to the first that fails, and a longer one gives the same texts to begin with.

## Main statements

* `Series.callByCall_run`: the texts, the end, the record and the draws of a series.
* `Series.texts_run_prefix`: the texts of a longer series.
-/

namespace TaggedGrammar.Series

/-- The draws that are left when a step was called so many times. -/
def chanceBefore (step : Step String) (context : Context) (chance : Chance) (i : Nat) : Chance :=
  (fun c => (step (.start context c)).2.chance)^[i] chance

/-- The call of a step that has so many calls before it, all in the same context. -/
def call (step : Step String) (context : Context) (chance : Chance) (i : Nat) :
    Except ExpansionError String × State :=
  step (.start context (chanceBefore step context chance i))

/-- The number of calls that a series has made. -/
def calls (s : Series) : Nat := s.texts.length + s.failure.toList.length

variable {step : Step String} {context : Context} {chance : Chance}

theorem call_succ (i : Nat) : call step context chance (i + 1) =
    call step context (step (.start context chance)).2.chance i := rfl

/-- What a series of at most `count` calls is, call by call. Every text is that of its call. Without
a failure no call is missing, and otherwise the failure is that of the call behind the last text.
What is on record happened in these calls, and no others have drawn. -/
structure CallByCall (step : Step String) (context : Context) (chance : Chance) (count : Nat)
    (s : Series) : Prop where
  texts : ∀ i text, s.texts[i]? = some text → (call step context chance i).1 = .ok text
  completed : s.failure = none → s.texts.length = count
  failed : ∀ e, s.failure = some e →
    s.texts.length < count ∧ (call step context chance s.texts.length).1 = .error e
  events : s.events =
    (List.range s.calls).flatMap fun i => (call step context chance i).2.events.toList
  chance : s.chance = chanceBefore step context chance s.calls

namespace CallByCall

variable {count : Nat} {s : Series}

theorem of_error {e : ExpansionError} {t : State}
    (h : step (.start context chance) = (.error e, t)) (count : Nat) :
    CallByCall step context chance (count + 1) ⟨[], t.events.toList, some e, t.chance⟩ := by
  have hcall : call step context chance 0 = (.error e, t) := h
  constructor
  · exact nofun
  · exact nofun
  · rintro _ ⟨⟩
    exact ⟨Nat.succ_pos count, congrArg Prod.fst hcall⟩
  · change t.events.toList = (call step context chance 0).2.events.toList ++ []
    rw [hcall, List.append_nil]
  · change t.chance = (step (.start context chance)).2.chance
    rw [h]

theorem of_ok {text : String} {t : State} (h : step (.start context chance) = (.ok text, t))
    (hs : CallByCall step context t.chance count s) :
    CallByCall step context chance (count + 1)
      { s with texts := text :: s.texts, events := t.events.toList ++ s.events } := by
  have hcall : call step context chance 0 = (.ok text, t) := h
  have hchance : (step (.start context chance)).2.chance = t.chance := by rw [h]
  have hcalls : calls { s with texts := text :: s.texts, events := t.events.toList ++ s.events } =
      s.calls + 1 := Nat.add_right_comm ..
  have hlater (i : Nat) : call step context chance (i + 1) = call step context t.chance i := by
    rw [call_succ, hchance]
  constructor
  · intro i other hother
    cases i with
    | zero =>
        obtain rfl := Option.some.inj hother
        exact congrArg Prod.fst hcall
    | succ i =>
        rw [hlater]
        exact hs.texts i other hother
  · exact fun hnone => congrArg (· + 1) (hs.completed hnone)
  · intro e he
    obtain ⟨hlt, hfails⟩ := hs.failed e he
    refine ⟨Nat.succ_lt_succ hlt, ?_⟩
    rw [List.length_cons, hlater]
    exact hfails
  · rw [hcalls, List.range_succ_eq_map, List.flatMap_cons, List.flatMap_map, hcall, hs.events]
    simp only [hlater]
  · rw [hcalls]
    change s.chance = chanceBefore step context (step (.start context chance)).2.chance s.calls
    rw [hchance]
    exact hs.chance

end CallByCall

theorem callByCall_run (step : Step String) (context : Context) (count : Nat) (chance : Chance) :
    CallByCall step context chance count (run step context count chance) := by
  induction count generalizing chance with
  | zero => exact ⟨nofun, fun _ => rfl, nofun, rfl, rfl⟩
  | succ count ih =>
      rw [run]
      split
      · rename_i e t h
        exact .of_error h count
      · rename_i text t h
        exact .of_ok h (ih t.chance)

theorem texts_run_prefix (step : Step String) (context : Context) {count more : Nat}
    (h : count ≤ more) (chance : Chance) :
    (run step context count chance).texts <+: (run step context more chance).texts := by
  induction count generalizing more chance with
  | zero => exact List.nil_prefix
  | succ count ih =>
      obtain ⟨more, rfl⟩ := Nat.exists_eq_add_of_lt (Nat.lt_of_succ_le h)
      rw [run, run]
      split
      · exact List.prefix_rfl
      · rename_i text t _
        exact List.cons_prefix_cons.mpr ⟨rfl, ih (Nat.le_add_right count more) t.chance⟩

end TaggedGrammar.Series
