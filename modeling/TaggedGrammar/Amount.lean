import TaggedGrammar.Text.Numeral

/-!
# Amounts

Where a number is asked for, a text that writes one will do as well.
-/

namespace TaggedGrammar

/-- A number, or a text in the place of one. -/
inductive Amount where
  | number (n : Int)
  | text (s : String)
deriving DecidableEq, Repr

namespace Amount

/-- The number, or the text as an error if it writes none. -/
def value : Amount → Except Text.NotANumeral Int
  | number n => .ok n
  | text s => Text.readInteger s

end Amount

end TaggedGrammar
