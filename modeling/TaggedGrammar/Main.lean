import TaggedGrammar.CommandLine.Run

/-!
# The program

Reads the file, makes a source of chance and prints the report of the run. Everything else is
decided in `CommandLine.run`.
-/

namespace TaggedGrammar

open CommandLine

/-- A number of 64 bits that depends on every bit of another. -/
def scatter (n : UInt64) : UInt64 :=
  let a := (n ^^^ (n >>> 30)) * 0xBF58476D1CE4E5B9
  let b := (a ^^^ (a >>> 27)) * 0x94D049BB133111EB
  b ^^^ (b >>> 31)

/-- The stream of draws that belongs to a seed. -/
def streamOfSeed (seed : Int) (i : Nat) : Int :=
  (scatter (UInt64.ofInt seed + UInt64.ofNat (i + 1) * 0x9E3779B97F4A7C15)).toNat

/-- A seed from the entropy of the system. -/
def freshSeed : IO Int := do
  let bytes ← IO.getRandomBytes 8
  return bytes.toList.foldl (fun n b => 256 * n + b.toNat) (0 : Nat)

/-- The text in the file at a path, or why it cannot be read. -/
def readText (path : Path) : IO (Except FileError String) := do
  try
    return .ok (← IO.FS.readFile path.toString)
  catch
    | .noFileOrDirectory .. => return .error .notFound
    | .inappropriateType .. => return .error .isDirectory
    | e => return .error ⟨5, e.toString⟩

end TaggedGrammar

open TaggedGrammar CommandLine in
/-- Runs the program and answers with its exit code. -/
def main (arguments : List String) : IO UInt32 := do
  let result ←
    match Invocation.ofArguments arguments with
    | .error _ => pure (CommandLine.run (fun _ => .error .notFound) (.ofArray #[]) arguments)
    | .ok i =>
      let text ← readText (.ofString i.grammar)
      let seed ← match i.seed with
        | some (some n) => pure n
        | _ => freshSeed
      pure (runInvocation (fun _ => text) (.ofStream (streamOfSeed seed)) i)
  match result with
  | .error e =>
    IO.eprintln e.message
    return 1
  | .ok report =>
    IO.print report.stdout
    IO.eprint report.stderr
    return UInt32.ofNat report.code
