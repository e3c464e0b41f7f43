import TaggedGrammar.Amount
import TaggedGrammar.Text.Lowercase

/-!
# Seeds

The shared source of chance is seeded with a number, with a text that writes one, or from a
source of entropy where nothing or one of four words is given. The answer is the seed in use,
with which the run can be repeated.
-/

namespace TaggedGrammar

/-- The words that ask for a seed from the source of entropy, in lower case. -/
def entropyWords : List String := ["auto", "rand", "random", "entropy"]

/-- The number of bits that a seed from the source of entropy has. -/
def entropyBits : Nat := 128

/-- What a seed is asked for with: nothing, or an amount. -/
abbrev SeedRequest := Option Amount

/-- Whether a text is one of the words that ask for entropy, in any case of its letters. -/
def isEntropyWord (s : String) : Bool :=
  entropyWords.contains (String.ofList (Text.lower s.toList))

/-- The amount that a request gives, unless it asks for entropy. -/
def SeedRequest.amount? : SeedRequest → Option Amount
  | some (.text s) => if isEntropyWord s then none else some (.text s)
  | request => request

/-- The seeds that the shared source of chance was given, and the numbers of bits that the
source of entropy was asked for, both in order. -/
structure Seeding where
  seeds : List Int
  requests : List Nat
deriving DecidableEq, Repr

namespace Seeding

/-- Before the first seed. -/
def empty : Seeding := ⟨[], []⟩

/-- Seeds with a number. -/
def seedWith (s : Seeding) (n : Int) : Seeding := { s with seeds := s.seeds ++ [n] }

/-- Asks the source of entropy. -/
def ask (s : Seeding) : Seeding := { s with requests := s.requests ++ [entropyBits] }

/-- Seeds anew as asked for, where `entropy` is what the source of entropy answers. A text that
writes no number leaves the seed as it is. -/
def reseed (s : Seeding) (entropy : Int) (request : SeedRequest) :
    Except Text.NotANumeral Int × Seeding :=
  match request.amount? with
  | none => (.ok entropy, s.ask.seedWith entropy)
  | some amount =>
    match amount.value with
    | .ok n => (.ok n, s.seedWith n)
    | .error e => (.error e, s)

end Seeding

end TaggedGrammar
