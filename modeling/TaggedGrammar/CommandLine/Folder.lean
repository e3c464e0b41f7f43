import TaggedGrammar.CommandLine.Path
import TaggedGrammar.Table
import TaggedGrammar.Text.Quoted

/-!
# Folders

A folder holds files and no other folders. Reading the file at a path fails for one of the
reasons that a system has for it.
-/

namespace TaggedGrammar.CommandLine

/-- Why a file cannot be read: the number and the words of the system for it. -/
structure FileError where
  number : Nat
  reason : String
deriving DecidableEq, Repr

namespace FileError

/-- There is nothing at the path. -/
def notFound : FileError := ⟨2, "No such file or directory"⟩

/-- A part of the path that should lead further is a file. -/
def notDirectory : FileError := ⟨20, "Not a directory"⟩

/-- There is a directory at the path. -/
def isDirectory : FileError := ⟨21, "Is a directory"⟩

/-- A part of the path, or the whole of it, takes too many bytes. -/
def nameTooLong : FileError := ⟨36, "File name too long"⟩

/-- The error of a path in words. -/
def message (e : FileError) (path : Path) : String :=
  s!"[Errno {e.number}] {e.reason}: {Text.quoted path.toString}"

end FileError

/-- A folder: the texts of the files in it, under their names. -/
abbrev Folder := Table String

namespace Folder

/-- Whether a name takes too many bytes to be looked up. -/
def isLongName (name : String) : Bool := 255 < name.utf8ByteSize

/-- Whether a path takes too many bytes to be followed. -/
def isLongPath (path : Path) : Bool := 4095 < path.toString.utf8ByteSize

/-- Follows a path that leads into the folder. A path through a file leads nowhere. -/
def follow (folder : Folder) : List String → Except FileError String
  | [] => .error .isDirectory
  | name :: rest =>
    if isLongName name then .error .nameTooLong
    else
      match folder.get? name with
      | none => .error .notFound
      | some text => if rest.isEmpty then .ok text else .error .notDirectory

/-- Reads the file at a path that begins in the folder. A path leads to a directory if it has
no parts or leads only upwards, and outside of the folder there are no files. -/
def read (folder : Folder) (path : Path) : Except FileError String :=
  let outside : Folder := ∅
  if isLongPath path then .error .nameTooLong
  else if path.root = .here && path.parts.head? ≠ some ".." then folder.follow path.parts
  else outside.follow (path.parts.dropWhile (· == ".."))

end Folder

end TaggedGrammar.CommandLine
