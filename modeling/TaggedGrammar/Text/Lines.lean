/-!
# Ends of lines

Texts come with a line feed, a carriage return, or both in a row at the end of a line. Here all
of them become line feeds.
-/

namespace TaggedGrammar.Text

/-- Puts a line feed for every carriage return, and for one before a line feed together with
that. -/
def unifyLines : List Char → List Char
  | [] => []
  | '\r' :: '\n' :: cs => '\n' :: unifyLines cs
  | '\r' :: cs => '\n' :: unifyLines cs
  | c :: cs => c :: unifyLines cs

example : unifyLines ['a', '\r', '\n', '\r', 'b', '\n'] = ['a', '\n', '\n', 'b', '\n'] := by
  decide

theorem unifyLines_of_not_mem {cs : List Char} (h : '\r' ∉ cs) : unifyLines cs = cs := by
  fun_induction unifyLines cs <;> simp_all

end TaggedGrammar.Text
