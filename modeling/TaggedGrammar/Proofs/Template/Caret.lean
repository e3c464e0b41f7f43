import Mathlib.Data.List.DropRight
import TaggedGrammar.Grammar.Rule
import TaggedGrammar.Proofs.Template.Location
import TaggedGrammar.Proofs.Template.Printing

/-!
# Where the carets stand

An error is shown with its template and, if it has a span, with a line of carets. That line stands
behind all lines of the template and counts its columns from the beginning of the template. So the
carets are under the span where the template is a single line, and in general not where it has more
lines than one.

## Main statements

* `ParseError.lines_describe`: the lines in which an error is shown.
* `Text.columnOf_eq_iff`: where the column in a line is the position in the text.
* `InvalidRule.pointsAt_iff`: when the carets point at the span.

## Implementation notes

The line behind that of the span may read like a line of carets by chance. Then the shown text is
right, although its last line is not the one that is.
-/

namespace TaggedGrammar

/-! ### Lines and columns -/

namespace Text

/-- The lines of a text. -/
def lines (cs : List Char) : List (List Char) := cs.splitOn '\n'

/-- The index of the line of a position. A line break belongs to the line that it ends. -/
def lineOf (cs : List Char) (i : Nat) : Nat := (cs.take i).count '\n'

/-- The column of a position in its line. -/
def columnOf (cs : List Char) (i : Nat) : Nat := ((cs.take i).rtakeWhile (· != '\n')).length

example : lineOf ['a', 'b', '\n', 'c', 'd'] 4 = 1 ∧ columnOf ['a', 'b', '\n', 'c', 'd'] 4 = 1 := by
  decide

variable {cs : List Char} {i : Nat}

theorem lines_append_break (cs ds : List Char) :
    lines (cs ++ '\n' :: ds) = lines cs ++ lines ds :=
  List.splitOn_append_cons_self cs ds

theorem lines_of_not_mem (h : '\n' ∉ cs) : lines cs = [cs] := List.splitOn_eq_singleton h

theorem length_lines (cs : List Char) : (lines cs).length = cs.count '\n' + 1 := by
  induction cs with
  | nil => rfl
  | cons c cs ih =>
      rw [lines] at ih ⊢
      rw [List.splitOn_cons_eq_if_modifyHead, List.count_cons]
      cases hc : c == '\n' with
      | true => simp [ih]
      | false => simp [ih]

theorem lineOf_lt (cs : List Char) (i : Nat) : lineOf cs i < (lines cs).length := by
  have hle : lineOf cs i ≤ cs.count '\n' := (List.take_sublist i cs).count_le '\n'
  rw [length_lines]
  omega

/-- Before the first line break the column is the position. -/
theorem columnOf_eq_iff (h : i ≤ cs.length) : columnOf cs i = i ↔ '\n' ∉ cs.take i := by
  have hlength : (cs.take i).length = i := List.length_take_of_le h
  have hself : columnOf cs i = i ↔ (cs.take i).rtakeWhile (· != '\n') = cs.take i := by
    constructor
    · intro hcolumn
      exact (List.rtakeWhile_suffix _ _).eq_of_length (hcolumn.trans hlength.symm)
    · intro hself
      rw [columnOf, hself, hlength]
  rw [hself, List.rtakeWhile_eq_self_iff]
  simp only [bne_iff_ne]
  exact List.forall_mem_ne'

end Text

open Template Text

/-! ### How an error is shown -/

namespace ParseError

/-- Carets from a column on, at least one. -/
def carets (column width : Nat) : List Char :=
  List.replicate column ' ' ++ List.replicate (max width 1) '^'

theorem carets_injective_left {column column' width : Nat}
    (h : carets column width = carets column' width) : column = column' := by
  have hlength := congrArg List.length h
  simpa [carets] using hlength

theorem toList_caretLine (first last : Nat) :
    (caretLine first last).toList = carets first (last - first) := by
  have hwidth : (max ((last : Int) - first) 1).toNat = max (last - first) 1 := by omega
  rw [caretLine, String.toList_ofList, hwidth, Int.toNat_natCast]
  rfl

theorem break_not_mem_carets (column width : Nat) : '\n' ∉ carets column width := by
  simp [carets]

theorem break_not_mem_description (defect : Defect) : '\n' ∉ defect.description.toList := by
  cases defect <;> decide

theorem break_not_mem_decimal (n : Nat) : '\n' ∉ decimal n := by
  intro hm
  exact absurd ((isNumeral_decimal n).2 '\n' hm) (by decide)

theorem break_not_mem_message (defect : Defect) (first last : Nat) :
    '\n' ∉ (within defect first last).message.toList := by
  have hmessage : (within defect first last).message =
      defect.description ++ " at " ++ toString (first : Int) ++ ".." ++ toString (last : Int) := rfl
  have hdescription := break_not_mem_description defect
  have hfirst : '\n' ∉ (toString (first : Int)).toList := break_not_mem_decimal first
  have hlast : '\n' ∉ (toString (last : Int)).toList := break_not_mem_decimal last
  rw [hmessage]
  simp only [String.toList_append, List.mem_append, hdescription, hfirst, hlast]
  decide

/-- The lines of a shown error are its message, the lines of the template and the carets. -/
theorem lines_describe (template : String) (defect : Defect) (first last : Nat) :
    lines ((within defect first last).describe template).toList =
      (within defect first last).message.toList ::
        (lines template.toList ++ [carets first (last - first)]) := by
  have hshown : ((within defect first last).describe template).toList =
      (within defect first last).message.toList ++ '\n' ::
        (template.toList ++ '\n' :: (caretLine first last).toList) := by
    have hdescribe : (within defect first last).describe template =
        (within defect first last).message ++ "\n" ++ template ++ "\n" ++
          caretLine first last := rfl
    rw [hdescribe]
    simp
  rw [hshown, lines_append_break, lines_append_break, toList_caretLine,
    lines_of_not_mem (break_not_mem_message defect first last),
    lines_of_not_mem (break_not_mem_carets _ _)]
  rfl

end ParseError

/-! ### When the carets point at the span -/

namespace InvalidRule

open ParseError

/-- The error is shown with the carets right behind the line in which the span begins, from the
column on in which it begins there. -/
def PointsAt (e : InvalidRule) (first last : Nat) : Prop :=
  let template := e.literal.toList
  let shown := lines e.message.toList
  shown[lineOf template first + 1]? = (lines template)[lineOf template first]? ∧
    shown[lineOf template first + 2]? = some (carets (columnOf template first) (last - first))

instance (e : InvalidRule) (first last : Nat) : Decidable (e.PointsAt first last) :=
  inferInstanceAs (Decidable (_ ∧ _))

section Within

variable {e : InvalidRule} {defect : Defect} {first last : Nat}

theorem lines_message (he : e.error = .within defect first last) :
    lines e.message.toList =
      e.error.message.toList :: (lines e.literal.toList ++ [carets first (last - first)]) := by
  rw [message, he, lines_describe]

/-- In the last line the carets point at the span only if it is the first line as well. -/
theorem pointsAt_within_iff (he : e.error = .within defect first last)
    (hfirst : first < e.literal.toList.length) :
    e.PointsAt first last ↔ '\n' ∉ e.literal.toList ∨
      (lines e.literal.toList)[lineOf e.literal.toList first + 1]? =
        some (carets (columnOf e.literal.toList first) (last - first)) := by
  have hline := lineOf_lt e.literal.toList first
  have hbreaks := length_lines e.literal.toList
  have hcolumn : columnOf e.literal.toList first = first ↔ lineOf e.literal.toList first = 0 :=
    (columnOf_eq_iff hfirst.le).trans List.count_eq_zero.symm
  unfold PointsAt
  simp only [lines_message he, List.getElem?_cons_succ, List.getElem?_append_left hline, true_and,
    ← List.count_eq_zero]
  -- What is shown behind the line of the span is the next line of the template, or else the carets.
  by_cases hnext : lineOf e.literal.toList first + 1 < (lines e.literal.toList).length
  · have hmany : ¬e.literal.toList.count '\n' = 0 := by omega
    rw [List.getElem?_append_left hnext, or_iff_right hmany]
  · have hend : (lines e.literal.toList).length = lineOf e.literal.toList first + 1 := by omega
    have hsingle :
        e.literal.toList.count '\n' = 0 ↔ columnOf e.literal.toList first = first := by
      rw [hcolumn]
      omega
    rw [← hend, List.getElem?_concat_length, List.getElem?_eq_none le_rfl, hsingle]
    simp only [reduceCtorEq, or_false, Option.some.injEq]
    constructor
    · exact fun hcarets => (carets_injective_left hcarets).symm
    · exact fun hfirst => by rw [hfirst]

end Within

/-- The lines in which a template with an error in a span is shown, when its carets point at the
span, and that no caret stands behind the end of a template of a single line. -/
theorem pointsAt_iff {literal : String} {e : InvalidRule} (h : Rule.ofLiteral literal = .error e)
    (hspan : e.error.span? ≠ none) :
    ∃ first last : Nat, e.error.span? = some ((first : Int), (last : Int)) ∧
      lines e.message.toList =
        e.error.message.toList :: (lines literal.toList ++ [carets first (last - first)]) ∧
      (e.PointsAt first last ↔ '\n' ∉ literal.toList ∨
        (lines literal.toList)[lineOf literal.toList first + 1]? =
          some (carets (columnOf literal.toList first) (last - first))) ∧
      ('\n' ∉ literal.toList → (carets first (last - first)).length ≤ literal.toList.length) := by
  obtain ⟨rfl, hparse⟩ := Rule.ofLiteral_eq_error_iff.mp h
  rcases parseChars_eq_error hparse with ⟨-, he⟩ | ⟨-, -, he⟩ |
    ⟨first, last, he, hle, hlast, hfirst, -⟩
  · exact absurd (congrArg ParseError.span? he) hspan
  · exact absurd (congrArg ParseError.span? he) hspan
  · have hlength : first + max (last - first) 1 ≤ e.literal.toList.length := by omega
    refine ⟨first, last, congrArg ParseError.span? he, lines_message he,
      pointsAt_within_iff he hfirst, fun _ => ?_⟩
    rwa [carets, List.length_append, List.length_replicate, List.length_replicate]

/-- In a single line the carets are under the name. -/
theorem pointsAt_name :
    Rule.ofLiteral "<@a b>" = .error ⟨"<@a b>", .within .invalidName 1 5⟩ ∧
      PointsAt ⟨"<@a b>", .within .invalidName 1 5⟩ 1 5 := by
  have herror : Rule.ofLiteral "<@a b>" = .error ⟨"<@a b>", .within .invalidName 1 5⟩ := by
    decide +kernel
  refine ⟨herror, ?_⟩
  obtain ⟨first, last, hspan, -, hpoints, -⟩ := pointsAt_iff herror (by decide)
  cases hspan
  exact hpoints.mpr (Or.inl (by decide))

/-- Under the second line the carets are too far to the right by the length of the first. -/
theorem not_pointsAt_second_line :
    Rule.ofLiteral "Hi\n<@some binding>" =
        .error ⟨"Hi\n<@some binding>", .within .invalidName 4 17⟩ ∧
      ¬PointsAt ⟨"Hi\n<@some binding>", .within .invalidName 4 17⟩ 4 17 := by
  constructor
  · decide +kernel
  · decide

end InvalidRule

end TaggedGrammar
