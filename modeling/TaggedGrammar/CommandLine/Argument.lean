import TaggedGrammar.CommandLine.Error
import TaggedGrammar.Text.DecimalDigit

/-!
# Arguments

Each argument by itself is a plain one, an option, or the separator `--` behind which all are
plain. A long option may be abbreviated as long as no other begins in the same way, and a value
may stand in the argument of its option. A negative number is plain.
-/

namespace TaggedGrammar.CommandLine

/-- What stands behind the spelling of an option in the same argument. -/
inductive Attached where
  | nothing
  /-- Characters behind a letter, where an equals sign between them does not count. -/
  | letters (cs : List Char)
  /-- Characters behind an equals sign after a long spelling. -/
  | value (cs : List Char)
deriving DecidableEq, Repr

/-- An argument by itself. -/
inductive Argument where
  | plain (text : String)
  | separator
  | option (flag : Flag) (attached : Attached)
  /-- What looks like an option and is none. -/
  | unknown (text : String)
deriving DecidableEq, Repr

namespace Argument

/-- Splits characters at the first equals sign. -/
def splitEquals (cs : List Char) : List Char × Option (List Char) :=
  match cs.dropWhile (· != '=') with
  | _ :: value => (cs.takeWhile (· != '='), some value)
  | [] => (cs, none)

/-- Whether characters are decimal digits of any script. -/
def areDigits (cs : List Char) : Bool := cs.all fun c => (Text.digitValue? c).isSome

/-- Whether characters are a hyphen and a number, with a point or without, and perhaps the end
of a line. -/
def isNegativeNumber : List Char → Bool
  | '-' :: cs =>
    let number := if cs.getLast? == some '\n' then cs.dropLast else cs
    match number.dropWhile (· != '.') with
    | [] => areDigits number && !number.isEmpty
    | _ :: fraction =>
      areDigits (number.takeWhile (· != '.')) && areDigits fraction && !fraction.isEmpty
  | _ => false

/-- What stands behind an equals sign, if there is one. -/
def Attached.ofValue? : Option (List Char) → Attached
  | some cs => .value cs
  | none => .nothing

/-- Reads an argument that begins with a hyphen and is no complete spelling. -/
def ofHyphen (s : String) (cs : List Char) : Except UsageError Argument :=
  let (before, value?) := splitEquals cs
  let other : Argument :=
    if isNegativeNumber cs || cs.contains ' ' then .plain s else .unknown s
  match value?, Flag.ofSpelling? (String.ofList before), cs with
  | some value, some flag, '-' :: '-' :: _ => .ok (.option flag (.value value))
  | some value, some flag, _ => .ok (.option flag (.letters value))
  | _, _, '-' :: '-' :: _ =>
    match Flag.completions (String.ofList before) with
    | [] => .ok other
    | [(_, flag)] => .ok (.option flag (Attached.ofValue? value?))
    | several => .error (.ambiguous s (several.map Prod.fst))
  | _, _, '-' :: c :: rest =>
    match Flag.ofLetter? c with
    | some flag => .ok (.option flag (.letters rest))
    | none => .ok other
  | _, _, _ => .ok (.plain s)

/-- Reads an argument before the separator. -/
def ofString (s : String) : Except UsageError Argument :=
  match Flag.ofSpelling? s, s.toList with
  | some flag, _ => .ok (.option flag .nothing)
  | none, '-' :: cs => ofHyphen s ('-' :: cs)
  | none, _ => .ok (.plain s)

/-- Reads arguments one by one, up to the first that is ambiguous. -/
def ofStrings : List String → Except UsageError (List Argument)
  | [] => .ok []
  | s :: rest =>
    if s == "--" then .ok (separator :: rest.map plain)
    else
      match ofString s with
      | .error e => .error e
      | .ok a => (ofStrings rest).map (a :: ·)

end Argument

end TaggedGrammar.CommandLine
