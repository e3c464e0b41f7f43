import TaggedGrammar.CommandLine.Argument

/-!
# Options in one argument

One argument may hold several options of one letter each. The last of them may take a value,
which is the rest of the argument or the next one. Two hyphens as a value are no value: the
option stands there and is given nothing.

## Main statements

* `Bundle.shrinks_ofAttached`: the arguments that remain are no more than there were.
-/

namespace TaggedGrammar.CommandLine

/-- The options in one argument. -/
structure Bundle where
  /-- The options with what they are given. One that takes no value is given nothing. -/
  uses : List (Flag × Option String)
  /-- The arguments behind, less the value that the last option took from there. -/
  rest : List Argument
deriving DecidableEq, Repr

/-- What a value gives to an option. -/
def given (value : String) : Option String := if value == "--" then none else some value

namespace Bundle

/-- One option with a value. -/
def ofValued (flag : Flag) (value : String) (rest : List Argument) : Bundle :=
  ⟨[(flag, given value)], rest⟩

/-- One option without a value. -/
def ofBare (flag : Flag) (rest : List Argument) : Bundle := ⟨[(flag, none)], rest⟩

/-- Puts an option without a value before others. -/
def cons (flag : Flag) (b : Bundle) : Bundle := { b with uses := (flag, none) :: b.uses }

/-- An option with nothing attached, which takes its value from the next argument. -/
def ofFlag (flag : Flag) (rest : List Argument) : Except UsageError Bundle :=
  if flag.takesValue then
    match rest with
    | .plain value :: rest => .ok (ofValued flag value rest)
    | _ => .error (.valueMissing flag)
  else .ok (ofBare flag rest)

/-- An option with a value attached. -/
def ofValue (flag : Flag) (value : List Char) (rest : List Argument) :
    Except UsageError Bundle :=
  if flag.takesValue then .ok (ofValued flag (String.ofList value) rest)
  else .error (.valueIgnored flag (String.ofList value))

/-- An option of one letter with characters behind it: its value if it takes one, else the
letter of a further option and what stands behind that. -/
def ofLetters (rest : List Argument) (flag : Flag) : List Char → Except UsageError Bundle
  | [] => ofValue flag [] rest
  | c :: cs =>
    match flag.takesValue, Flag.ofLetter? c with
    | false, some next =>
      (if cs.isEmpty then ofFlag next rest else ofLetters rest next cs).map (cons flag)
    | _, _ => ofValue flag (c :: cs) rest

/-- The options in an argument. -/
def ofAttached (flag : Flag) (rest : List Argument) : Attached → Except UsageError Bundle
  | .nothing => ofFlag flag rest
  | .letters cs => ofLetters rest flag cs
  | .value value => ofValue flag value rest

/-- No option takes more than the next argument, and none gives arguments back. -/
def Shrinks (rest : List Argument) (r : Except UsageError Bundle) : Prop :=
  ∀ b, r = .ok b → b.rest.length ≤ rest.length

theorem shrinks_ofValued (flag : Flag) (value : String) (rest : List Argument) :
    Shrinks rest (.ok (ofValued flag value rest)) := by
  rintro b ⟨⟩
  exact Nat.le_refl _

theorem shrinks_ofBare (flag : Flag) (rest : List Argument) :
    Shrinks rest (.ok (ofBare flag rest)) := by
  rintro b ⟨⟩
  exact Nat.le_refl _

theorem shrinks_error (rest : List Argument) (e : UsageError) : Shrinks rest (.error e) := by
  rintro b ⟨⟩

theorem shrinks_map_cons {rest : List Argument} {r : Except UsageError Bundle} (flag : Flag)
    (h : Shrinks rest r) : Shrinks rest (r.map (cons flag)) := by
  cases r with
  | error e => exact shrinks_error rest e
  | ok found =>
    rintro b ⟨⟩
    exact h found rfl

theorem shrinks_ofFlag (flag : Flag) (rest : List Argument) :
    Shrinks rest (ofFlag flag rest) := by
  unfold ofFlag
  split
  · split
    · rintro b ⟨⟩
      simp [ofValued]
    · exact shrinks_error _ _
  · exact shrinks_ofBare _ _

theorem shrinks_ofValue (flag : Flag) (value : List Char) (rest : List Argument) :
    Shrinks rest (ofValue flag value rest) := by
  unfold ofValue
  split
  · exact shrinks_ofValued _ _ _
  · exact shrinks_error _ _

theorem shrinks_ofLetters (rest : List Argument) (flag : Flag) (cs : List Char) :
    Shrinks rest (ofLetters rest flag cs) := by
  induction cs generalizing flag with
  | nil => exact shrinks_ofValue _ _ _
  | cons c cs ih =>
    unfold ofLetters
    split
    · apply shrinks_map_cons
      split
      · exact shrinks_ofFlag _ _
      · exact ih _
    · exact shrinks_ofValue _ _ _

theorem shrinks_ofAttached (flag : Flag) (rest : List Argument) (a : Attached) :
    Shrinks rest (ofAttached flag rest a) := by
  cases a with
  | nothing => exact shrinks_ofFlag flag rest
  | letters cs => exact shrinks_ofLetters rest flag cs
  | value value => exact shrinks_ofValue flag value rest

end Bundle

end TaggedGrammar.CommandLine
