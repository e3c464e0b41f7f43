import TaggedGrammar.Proofs.Template.Printing
import TaggedGrammar.Proofs.Text.Lowercase
import TaggedGrammar.Proofs.Text.Numeral
import TaggedGrammar.Seed

/-!
# Seeds that repeat a run

To seed the source of chance is either to be refused, which changes nothing, or to give it one seed
and to be told which. The seed that was told, as a number or printed, is its own seed and needs no
entropy, so with it the same run can be had again, whatever was asked for at first.

## Main statements

* `isEntropyWord_iff`: which texts ask for entropy.
* `writes_toString`: a printed number writes that number.
* `Seeding.reseed_eq_iff`: what comes of seeding.
* `Seeding.reseed_replays`: the seed that is told can be given again.
-/

namespace TaggedGrammar

open Text

/-! ### Words and numerals -/

/-- The words ask for entropy in capitals as well, and no other text does. -/
theorem isEntropyWord_iff {s : String} : isEntropyWord s = true ↔ s.toLower ∈ entropyWords := by
  have hplain : ∀ word ∈ entropyWords, word.toList.all isPlain = true := by decide
  have hlower : s.toLower.toList = s.toList.map Char.toLower := String.toList_map
  have hsame : ∀ word ∈ entropyWords,
      String.ofList (lower s.toList) = word ↔ s.toLower = word := by
    intro word hword
    have hchars := List.all_eq_true.mp (hplain word hword)
    rw [← String.toList_inj, String.toList_ofList, lower_eq_iff hchars, ← hlower,
      String.toList_inj]
  rw [isEntropyWord, List.contains_iff_mem]
  constructor
  · intro h
    exact ((hsame _ h).mp rfl).symm ▸ h
  · intro h
    exact ((hsame _ h).mpr rfl).symm ▸ h

/-- There is a digit in a text that writes a number, and none in the words. -/
theorem not_mem_entropyWords {s : String} {n : Int} (h : Writes s n) :
    s.toLower ∉ entropyWords := by
  have hletters : ∀ word ∈ entropyWords,
      word.toList.all (fun c => (digitValue? c).isNone) = true := by
    decide
  intro hword
  obtain ⟨c, hc, d, hd⟩ := h.exists_mem
  have hsame : c.toLower = c := toLower_of_not_capital (toNat_of_digitValue? hd)
  have hlower : s.toLower.toList = s.toList.map Char.toLower := String.toList_map
  have hmem : c ∈ s.toLower.toList := hlower ▸ List.mem_map.mpr ⟨c, hc, hsame⟩
  have hnone := Option.isNone_iff_eq_none.mp (List.all_eq_true.mp (hletters _ hword) c hmem)
  exact Option.some_ne_none d (hd.symm.trans hnone)

theorem digits_of_isNumeral {cs : List Char} (h : Template.IsNumeral cs) :
    Digits cs (cs.map fun c => c.toNat - '0'.toNat) := by
  obtain ⟨hne, hall⟩ := h
  induction cs with
  | nil => exact absurd rfl hne
  | cons c cs ih =>
      obtain ⟨hc, hcs⟩ := List.forall_mem_cons.mp hall
      have hd := digitValue?_of_isDigit hc
      cases cs with
      | nil => exact .last hd
      | cons e cs => exact .next hd (ih (List.cons_ne_nil e cs) hcs)

theorem digits_decimal (n : Nat) :
    ∃ ds, Digits (Template.decimal n) ds ∧ digitsValue ds = n := by
  refine ⟨_, digits_of_isNumeral (Template.isNumeral_decimal n), ?_⟩
  rw [digitsValue, ← List.map_reverse]
  exact Template.numeralValue_decimal n

/-- A printed number writes that number. -/
theorem writes_toString (n : Int) : Writes (toString n) n := by
  suffices h : Signed (toString n).toList n from
    ⟨[], _, [], (List.append_nil _).symm, nofun, h, nofun⟩
  cases n with
  | ofNat n =>
      obtain ⟨ds, hds, hn⟩ := digits_decimal n
      have hsigned : Signed (Template.decimal n) (digitsValue ds) := .bare hds
      rw [hn] at hsigned
      exact hsigned
  | negSucc n =>
      obtain ⟨ds, hds, hn⟩ := digits_decimal (n + 1)
      have htext : (toString (Int.negSucc n)).toList = '-' :: Template.decimal (n + 1 : Nat) := by
        change ("-" ++ toString (n + 1)).toList = _
        rw [String.toList_append]
        rfl
      have hvalue : Int.negSucc n = -(digitsValue ds : Int) := by
        rw [hn]
        rfl
      rw [htext, hvalue]
      exact .minus hds

/-! ### Seeding -/

/-- Nothing is given, or one of the words, in any case of its letters. -/
def SeedRequest.AsksEntropy : SeedRequest → Prop
  | none => True
  | some (.number _) => False
  | some (.text text) => text.toLower ∈ entropyWords

theorem SeedRequest.amount?_eq_none_iff {request : SeedRequest} :
    request.amount? = none ↔ request.AsksEntropy := by
  cases request with
  | none => exact iff_of_true rfl trivial
  | some amount =>
      cases amount with
      | number n => exact iff_of_false nofun not_false
      | text text => simp [amount?, AsksEntropy, isEntropyWord_iff]

theorem SeedRequest.amount?_text {text : String} (h : text.toLower ∉ entropyWords) :
    SeedRequest.amount? (some (.text text)) = some (.text text) :=
  if_neg (mt isEntropyWord_iff.mp h)

namespace Seeding

/-- What comes of seeding: the seed that is told or the text that is refused, and what was asked
of the two sources then. -/
inductive Reseeds (s : Seeding) (entropy : Int) :
    SeedRequest → Except NotANumeral Int × Seeding → Prop
  | fresh {request : SeedRequest} (h : request.AsksEntropy) :
      Reseeds s entropy request (.ok entropy, ⟨s.seeds ++ [entropy], s.requests ++ [entropyBits]⟩)
  | number (n : Int) :
      Reseeds s entropy (some (.number n)) (.ok n, ⟨s.seeds ++ [n], s.requests⟩)
  | numeral {text : String} {n : Int} (h : Writes text n) :
      Reseeds s entropy (some (.text text)) (.ok n, ⟨s.seeds ++ [n], s.requests⟩)
  | refused {text : String} (hword : text.toLower ∉ entropyWords) (h : ∀ n, ¬Writes text n) :
      Reseeds s entropy (some (.text text)) (.error ⟨text⟩, s)

variable {s : Seeding} {entropy : Int} {request : SeedRequest}

theorem reseed_of_asksEntropy (h : request.AsksEntropy) :
    s.reseed entropy request =
      (.ok entropy, ⟨s.seeds ++ [entropy], s.requests ++ [entropyBits]⟩) := by
  rw [reseed, SeedRequest.amount?_eq_none_iff.mpr h]
  rfl

theorem reseed_of_writes {text : String} {n : Int} (h : Writes text n) :
    s.reseed entropy (some (.text text)) = (.ok n, ⟨s.seeds ++ [n], s.requests⟩) := by
  have hread : readInteger text = .ok n := readInteger_eq_iff.mpr (.inl ⟨n, h, rfl⟩)
  rw [reseed, SeedRequest.amount?_text (not_mem_entropyWords h)]
  simp only [Amount.value, hread]
  rfl

theorem reseed_of_not_writes {text : String} (hword : text.toLower ∉ entropyWords)
    (h : ∀ n, ¬Writes text n) : s.reseed entropy (some (.text text)) = (.error ⟨text⟩, s) := by
  have hread : readInteger text = .error ⟨text⟩ := readInteger_eq_iff.mpr (.inr ⟨h, rfl⟩)
  rw [reseed, SeedRequest.amount?_text hword]
  simp only [Amount.value, hread]

theorem reseeds_reseed : s.Reseeds entropy request (s.reseed entropy request) := by
  by_cases hasks : request.AsksEntropy
  · rw [reseed_of_asksEntropy hasks]
    exact .fresh hasks
  · match request with
    | none => exact absurd trivial hasks
    | some (.number n) => exact .number n
    | some (.text text) =>
        by_cases hwrites : ∃ n, Writes text n
        · obtain ⟨n, h⟩ := hwrites
          rw [reseed_of_writes h]
          exact .numeral h
        · have h := not_exists.mp hwrites
          rw [reseed_of_not_writes hasks h]
          exact .refused hasks h

theorem reseed_eq_iff {answer : Except NotANumeral Int × Seeding} :
    s.reseed entropy request = answer ↔ s.Reseeds entropy request answer := by
  constructor
  · rintro rfl
    exact reseeds_reseed
  · intro h
    cases h with
    | fresh h => exact reseed_of_asksEntropy h
    | number n => rfl
    | numeral h => exact reseed_of_writes h
    | refused hword h => exact reseed_of_not_writes hword h

/-- The source of chance was given the seed that is told, and no other. -/
theorem Reseeds.seeds_eq {n : Int} {after : Seeding}
    (h : s.Reseeds entropy request (.ok n, after)) : after.seeds = s.seeds ++ [n] := by
  cases h <;> rfl

/-- The source of entropy is asked where a request says so, and nowhere else. -/
theorem Reseeds.requests_eq {answer : Except NotANumeral Int × Seeding}
    (h : s.Reseeds entropy request answer) :
    (request.AsksEntropy ∧ answer.2.requests = s.requests ++ [entropyBits]) ∨
      (¬request.AsksEntropy ∧ answer.2.requests = s.requests) := by
  cases h with
  | fresh h => exact .inl ⟨h, rfl⟩
  | number n => exact .inr ⟨not_false, rfl⟩
  | numeral h => exact .inr ⟨not_mem_entropyWords h, rfl⟩
  | refused hword _ => exact .inr ⟨hword, rfl⟩

/-- A request for a seed does what `Reseeds` says and nothing else: it asks for entropy just where
it says so, a seed that it tells is the one seed that was given, and that number and its numeral
are the same seed again from any state on, whatever entropy there would be. -/
theorem reseed_replays (s : Seeding) (entropy : Int) (request : SeedRequest) :
    (∀ answer, s.reseed entropy request = answer ↔ s.Reseeds entropy request answer) ∧
    ((request.AsksEntropy ∧
        (s.reseed entropy request).2.requests = s.requests ++ [entropyBits]) ∨
      (¬request.AsksEntropy ∧ (s.reseed entropy request).2.requests = s.requests)) ∧
    ∀ n after, s.reseed entropy request = (.ok n, after) →
      after.seeds = s.seeds ++ [n] ∧
      ∀ (later : Seeding) (other : Int),
        later.reseed other (some (.number n)) = (.ok n, ⟨later.seeds ++ [n], later.requests⟩) ∧
        later.reseed other (some (.text (toString n))) =
          (.ok n, ⟨later.seeds ++ [n], later.requests⟩) := by
  refine ⟨fun answer => reseed_eq_iff, reseeds_reseed.requests_eq, fun n after h => ?_⟩
  refine ⟨(reseed_eq_iff.mp h).seeds_eq, fun later other => ⟨rfl, ?_⟩⟩
  exact reseed_of_writes (writes_toString n)

/-- A no-break space, a sign, and a digit of each of two scripts write a seed that is told as
-12. -/
theorem reseed_replays_numeral :
    empty.reseed 5 (some (.text "\u00a0-1_\u0662")) = (.ok (-12), ⟨[-12], []⟩) ∧
    empty.reseed 7 (some (.text "-12")) = (.ok (-12), ⟨[-12], []⟩) := by
  have hread : empty.reseed 5 (some (.text "\u00a0-1_\u0662")) = (.ok (-12), ⟨[-12], []⟩) := by
    decide
  obtain ⟨-, -, hreplay⟩ := reseed_replays empty 5 (some (.text "\u00a0-1_\u0662"))
  obtain ⟨-, hlater⟩ := hreplay _ _ hread
  exact ⟨hread, (hlater empty 7).2⟩

end Seeding

end TaggedGrammar
