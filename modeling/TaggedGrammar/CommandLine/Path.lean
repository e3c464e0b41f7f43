/-!
# Paths

A path is taken apart at its slashes, where empty parts and single dots do not count, and is
shown as its parts with slashes between them. Two slashes in front are told from one, and more
than two are one.
-/

namespace TaggedGrammar.CommandLine

/-- The place where a path begins. -/
inductive Root where
  | here
  | slash
  | twoSlashes
deriving DecidableEq, Repr

/-- A path: where it begins and its parts. -/
structure Path where
  root : Root
  parts : List String
deriving DecidableEq, Repr

namespace Path

/-- The parts between the slashes of some characters. -/
def splitSlashes : List Char → List (List Char)
  | [] => [[]]
  | c :: cs =>
    match splitSlashes cs with
    | [] => [[c]]
    | part :: rest => if c = '/' then [] :: part :: rest else (c :: part) :: rest

/-- The place where some characters begin as a path. -/
def rootOf (cs : List Char) : Root :=
  match (cs.takeWhile (· == '/')).length with
  | 0 => .here
  | 2 => .twoSlashes
  | _ => .slash

/-- The path that a text writes. -/
def ofString (s : String) : Path :=
  let parts := (splitSlashes s.toList).filter fun part => !part.isEmpty && part != ['.']
  ⟨rootOf s.toList, parts.map String.ofList⟩

/-- The path as text. -/
def toString (p : Path) : String :=
  let parts := "/".intercalate p.parts
  match p.root with
  | .here => if p.parts.isEmpty then "." else parts
  | .slash => "/" ++ parts
  | .twoSlashes => "//" ++ parts

example : (ofString "./a//b/.").toString = "a/b" := by decide

example : (ofString "").toString = "." := by decide

end Path

end TaggedGrammar.CommandLine
