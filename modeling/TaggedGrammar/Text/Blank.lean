import TaggedGrammar.Text.Ranges

/-!
# Blanks

A blank is a character that separates words: the spaces, tabs and line breaks, and the four
information separators U+001C to U+001F. The zero-width space and the byte order mark are none.
-/

namespace TaggedGrammar.Text

/-- The code points of the blanks. -/
def blankRanges : Ranges :=
  [
    (9, 13), (28, 32), (133, 133), (160, 160), (5760, 5760), (8192, 8202), (8232, 8233),
    (8239, 8239), (8287, 8287), (12288, 12288)
  ]

example : blankRanges.ascending = true := by decide +kernel

/-- Whether a character is a blank. -/
def isBlank (c : Char) : Bool := blankRanges.covers c.toNat

/-- The characters from the first that is no blank. -/
def trimLeft (cs : List Char) : List Char := cs.dropWhile isBlank

/-- The characters up to the last that is no blank. -/
def trimRight (cs : List Char) : List Char := (cs.reverse.dropWhile isBlank).reverse

/-- The characters without the blanks at both ends. -/
def trim (cs : List Char) : List Char := trimRight (trimLeft cs)

theorem length_trimLeft_le (cs : List Char) : (trimLeft cs).length ≤ cs.length :=
  (List.dropWhile_sublist isBlank).length_le

theorem length_trimRight_le (cs : List Char) : (trimRight cs).length ≤ cs.length := by
  have h := (List.dropWhile_sublist isBlank (l := cs.reverse)).length_le
  simpa [trimRight] using h

theorem length_trim_le (cs : List Char) : (trim cs).length ≤ cs.length :=
  Nat.le_trans (length_trimRight_le _) (length_trimLeft_le cs)

end TaggedGrammar.Text
