import Mathlib.Data.List.Forall2

/-!
# Answers that may fail

What has to have happened where an answer is made of other answers, each of which may fail. The
items of a list are answered one after the other up to the first failure, so the answer is that to
all of them, or the failure of the first that is not answered.

## Main statements

* `Answer.bind_map_eq_ok_iff`, `Answer.bind_map_eq_error_iff`: two answers, one after the other.
* `Answer.InTurn.eq_ok_iff`, `Answer.InTurn.eq_error_iff`: the items of a list.
-/

namespace TaggedGrammar

namespace Answer

section Sequence

variable {ε α β γ : Type} {x : Except ε α} {y : Except ε β}

theorem map_eq_ok_iff {f : α → β} {b : β} :
    x.map f = .ok b ↔ ∃ a, x = .ok a ∧ f a = b := by
  cases x with
  | error e => simp [Except.map]
  | ok a => simp [Except.map]

theorem toOption_eq_some_iff {a : α} : x.toOption = some a ↔ x = .ok a := by
  cases x with
  | error e => simp [Except.toOption]
  | ok a' => simp [Except.toOption]

theorem map_eq_error_iff {f : α → β} {e : ε} :
    x.map f = .error e ↔ x = .error e := by
  cases x with
  | error e' => simp [Except.map]
  | ok a => simp [Except.map]

theorem mapError_eq_ok_iff {f : ε → γ} {a : α} : x.mapError f = .ok a ↔ x = .ok a := by
  cases x with
  | error e => simp [Except.mapError]
  | ok a' => simp [Except.mapError]

theorem mapError_eq_error_iff {f : ε → γ} {c : γ} :
    x.mapError f = .error c ↔ ∃ e, x = .error e ∧ f e = c := by
  cases x with
  | error e => simp [Except.mapError]
  | ok a => simp [Except.mapError]

theorem bind_map_eq_ok_iff {f : α → β → γ} {c : γ} :
    (x.bind fun a => y.map (f a)) = .ok c ↔ ∃ a b, x = .ok a ∧ y = .ok b ∧ c = f a b := by
  cases x with
  | error e => simp [Except.bind]
  | ok a =>
      cases y with
      | error e => simp [Except.bind, Except.map]
      | ok b => simp [Except.bind, Except.map, eq_comm]

theorem bind_map_eq_error_iff {f : α → β → γ} {e : ε} :
    (x.bind fun a => y.map (f a)) = .error e ↔ x = .error e ∨ (∃ a, x = .ok a) ∧ y = .error e := by
  cases x with
  | error e => simp [Except.bind]
  | ok a =>
      cases y with
      | error e => simp [Except.bind, Except.map]
      | ok b => simp [Except.bind, Except.map]

end Sequence

/-- The items of a list are answered one after the other, up to the first failure, each by a
function that may look at the index of the item but answers the same at every index. -/
structure InTurn {ε α β : Type} (Answers : α → β → Prop) (f : Nat → α → Except ε β)
    (run : Nat → List α → Except ε (List β)) : Prop where
  item : ∀ i x y, f i x = .ok y ↔ Answers x y
  nil : ∀ i, run i [] = .ok []
  cons : ∀ i x xs, run i (x :: xs) = (f i x).bind fun y => (run (i + 1) xs).map (y :: ·)

namespace InTurn

variable {ε α β : Type} {Answers : α → β → Prop} {f : Nat → α → Except ε β}
  {run : Nat → List α → Except ε (List β)} {i : Nat} {xs : List α}

theorem eq_ok_iff (h : InTurn Answers f run) {ys : List β} :
    run i xs = .ok ys ↔ List.Forall₂ Answers xs ys := by
  induction xs generalizing i ys with
  | nil => simp [h.nil, eq_comm]
  | cons x xs ih =>
      rw [h.cons, bind_map_eq_ok_iff, List.forall₂_cons_left_iff]
      simp only [h.item, ih, ← and_assoc]

theorem length_eq (h : InTurn Answers f run) {ys : List β} (hok : run i xs = .ok ys) :
    ys.length = xs.length :=
  (h.eq_ok_iff.mp hok).length_eq.symm

/-- What is in the answer answers one of the items. -/
theorem exists_item (h : InTurn Answers f run) {ys : List β} (hok : run i xs = .ok ys) :
    ∀ y ∈ ys, ∃ x, Answers x y := by
  have hall := h.eq_ok_iff.mp hok
  clear hok
  induction hall with
  | nil => exact nofun
  | @cons x y xs ys hxy _ ih => exact List.forall_mem_cons.mpr ⟨⟨x, hxy⟩, ih⟩

/-- The error is that of the first item that is not answered. -/
theorem eq_error_iff (h : InTurn Answers f run) {e : ε} :
    run i xs = .error e ↔ ∃ before x after, xs = before ++ x :: after ∧
      (∀ b ∈ before, ∃ y, Answers b y) ∧ f (i + before.length) x = .error e := by
  induction xs generalizing i with
  | nil =>
      rw [h.nil]
      simp
  | cons first rest ih =>
      rw [h.cons, bind_map_eq_error_iff, ih]
      simp only [h.item]
      constructor
      · rintro (he | ⟨hfirst, before, x, after, rfl, hbefore, he⟩)
        · exact ⟨[], first, rest, rfl, nofun, he⟩
        · refine ⟨first :: before, x, after, rfl, List.forall_mem_cons.mpr ⟨hfirst, hbefore⟩, ?_⟩
          rwa [List.length_cons, Nat.add_comm before.length, ← Nat.add_assoc]
      · rintro ⟨before, x, after, hxs, hbefore, he⟩
        cases before with
        | nil =>
            obtain ⟨rfl, rfl⟩ := List.cons_eq_cons.mp hxs
            exact Or.inl he
        | cons b before =>
            obtain ⟨rfl, rfl⟩ := List.cons_eq_cons.mp hxs
            obtain ⟨hfirst, hbefore⟩ := List.forall_mem_cons.mp hbefore
            refine Or.inr ⟨hfirst, before, x, after, rfl, hbefore, ?_⟩
            rwa [List.length_cons, Nat.add_comm before.length, ← Nat.add_assoc] at he

end InTurn

/-- Each item has a property and is answered with its value under a function. -/
theorem forall₂_iff_map {α β : Type} {P : α → Prop} {f : α → β} {xs : List α} {ys : List β} :
    List.Forall₂ (fun x y => P x ∧ y = f x) xs ys ↔ (∀ x ∈ xs, P x) ∧ ys = xs.map f := by
  have hmap : List.Forall₂ (fun x y => y = f x) xs ys ↔ xs.map f = ys := by
    rw [← List.forall₂_eq_eq_eq, List.forall₂_map_left_iff]
    simp only [eq_comm]
  rw [List.forall₂_and_left, hmap, eq_comm]

end Answer

end TaggedGrammar
