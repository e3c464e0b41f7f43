import TaggedGrammar.Grammar.Basic
import TaggedGrammar.Proofs.Template.Reading

/-!
# Grammars of parsed rules

Rules may have tokens that no template gives: a range without numbers, a command of which
nothing is known, a bare text. The tokens of a parsed rule are all regular, and so are those of
every rule of a parsed grammar.

## Main statements

* `Template.regular_of_parse`: a template gives regular tokens only.
* `Grammar.Parsed.regular`: so do the rules that an expansion can select.
-/

namespace TaggedGrammar

/-- There is a number in the range, the command is known, and no text stands in the place of a
token. -/
def Token.Regular : Token → Prop
  | .range lower upper => lower < upper
  | .expression command inner => (∃ c, Command.ofName? command = some c) ∧ inner.Regular
  | .stray _ => False
  | _ => True

namespace Template

theorem Body.regular_token {b : Body} (h : b.WellFormed) : b.token.Regular := by
  induction b with
  | name n | binding n | sticky n | assignment n rule => trivial
  | range lower upper => exact Int.ofNat_lt.mpr h.2.2
  | command keyword c before inner after ih =>
      exact ⟨⟨c, Command.ofName?_name c⟩, ih h.2.2.1⟩

theorem Piece.regular_token {p : Piece} (h : p.WellFormed) : p.token.Regular := by
  cases p with
  | run cs => trivial
  | substitution b => exact Body.regular_token h

theorem regular_of_parse {template : String} {tokens : List Token}
    (h : parse template = .ok tokens) : ∀ token ∈ tokens, token.Regular := by
  obtain ⟨ps, -, hps, rfl⟩ := exists_decomposes_of_parseChars h
  intro token ht
  obtain ⟨p, hp, rfl⟩ := List.mem_map.mp ht
  exact Piece.regular_token (hps.wellFormed p hp)

end Template

namespace Grammar

/-- Every rule of the grammar has the tokens of its template. -/
def Parsed (g : Grammar) : Prop :=
  ∀ c ∈ g.toList, ∀ group ∈ c.groups, ∀ rule ∈ group.rules, rule.Parsed

theorem mem_toList_of_get? {g : Grammar} {name : String} {c : Cognate}
    (h : g.get? name = some c) : c ∈ g.toList :=
  List.mem_map_of_mem (Table.get?_eq_some_iff.mp h)

/-- The rules on offer in a parsed grammar have regular tokens. -/
theorem Parsed.regular {g : Grammar} (hg : g.Parsed) {name : String} {c : Cognate}
    (hc : g.get? name = some c) {group : Group} (hgroup : group ∈ c.groups) {rule : Rule}
    (hrule : rule ∈ group.rules) : ∀ token ∈ rule.tokens, token.Regular :=
  Template.regular_of_parse (hg c (mem_toList_of_get? hc) group hgroup rule hrule)

end Grammar

/-! ### A parsed grammar -/

/-- A tale of some beast, which it names twice, and a number. -/
def tale : Rule := ⟨"<!beast> <(cap @beast)> <#1-4>", [.sticky "beast", .literal " ",
  .expression "capitalize" (.binding "beast"), .literal " ", .range 1 4]⟩

/-- The groups of the beasts: big ones and small ones. -/
def beasts : List Group :=
  [⟨[⟨"ox", [.literal "ox"]⟩], Table.insert ∅ "size" "big", ""⟩,
    ⟨[⟨"hen", [.literal "hen"]⟩], Table.insert ∅ "size" "small", ""⟩]

/-- The tale and the beasts. -/
def farm : Grammar := .ofCognates [⟨"tale", [⟨[tale], ∅, ""⟩]⟩, ⟨"beast", beasts⟩] 3

open Template in
theorem parsed_tale : tale.Parsed := by
  let beast := "beast".toList
  have hbeast : Text.isName beast = true := by decide
  have hspace : (Piece.run [' ']).WellFormed :=
    ⟨List.cons_ne_nil _ _, escaped_concat_iff.mpr ⟨escaped_nil, by decide⟩⟩
  have hcommand : (Body.command "cap".toList .capitalize [] (.binding beast) []).WellFormed :=
    ⟨by decide, by simp, hbeast, by simp⟩
  have hnumeral (c : Char) (h : c.isDigit = true) : IsNumeral [c] :=
    ⟨List.cons_ne_nil _ _, fun d hd => List.mem_singleton.mp hd ▸ h⟩
  have hrange : (Body.range ['1'] ['4']).WellFormed :=
    ⟨hnumeral '1' (by decide), hnumeral '4' (by decide), by decide⟩
  have hpieces : Decomposes [.substitution (.sticky beast), .run [' '],
      .substitution (.command "cap".toList .capitalize [] (.binding beast) []), .run [' '],
      .substitution (.range ['1'] ['4'])] tale.literal.toList := by
    refine ⟨?_, by simp [Piece.MayPrecede], rfl⟩
    simp only [List.forall_mem_cons, List.not_mem_nil, false_implies, implies_true, and_true]
    exact ⟨hbeast, hspace, hcommand, hspace, hrange⟩
  exact parseChars_of_decomposes (List.cons_ne_nil _ _) hpieces

theorem parsed_farm : farm.Parsed := by
  have hcognates : farm.toList = [⟨"tale", [⟨[tale], ∅, ""⟩]⟩, ⟨"beast", beasts⟩] := rfl
  rw [Grammar.Parsed, hcognates, beasts]
  simp only [List.forall_mem_cons, List.not_mem_nil, false_implies, implies_true, and_true]
  exact ⟨parsed_tale, rfl, rfl⟩

end TaggedGrammar
