import TaggedGrammar.CommandLine.Run
import TaggedGrammar.Proofs.Expansion.Safety
import TaggedGrammar.Proofs.Expansion.Series
import TaggedGrammar.Proofs.Grammar.Session

/-!
# What a run prints

A run that is to print expansions makes a series of calls, all in the context of the tags and
bindings that are given. It prints the texts up to the first call that fails, and then the error
of that call. Nothing else goes to the output, and what else goes to the errors is the log, in
which no message looks like an error.

## Main statements

* `Invocation.context_eq_ok_iff`: the context of a run, from the values of its options.
* `Ready.run_eq`: what a run does that comes to its calls.
* `run_prints_calls`: the output, the errors and the exit code, and the output of a longer run.

## Implementation notes

A message of the log may hold ends of lines, for instance from the path of the grammar. So that it
is no error is told of the whole message and not of its lines.
-/

namespace TaggedGrammar.CommandLine

/-! ### Pairs -/

/-- Whether what an option is given is a text with an equals sign. -/
def IsPair (given : Option String) : Prop := ∃ text, given = some text ∧ '=' ∈ text.toList

/-- What an option is given writes a pair. Between key and value is the first equals sign, and the
blanks around the key do not belong to it. -/
def Writes (given : Option String) (pair : String × String) : Prop :=
  ∃ text before value, given = some text ∧ text.toList = before ++ '=' :: value ∧ '=' ∉ before ∧
    pair = (String.ofList (Text.trim before), String.ofList value)

theorem Argument.splitEquals_append_cons {before : List Char} (h : '=' ∉ before)
    (value : List Char) : splitEquals (before ++ '=' :: value) = (before, some value) := by
  rw [splitEquals, Text.dropWhile_append_cons h, Text.takeWhile_append_cons h]

theorem Argument.splitEquals_of_not_mem {cs : List Char} (h : '=' ∉ cs) :
    splitEquals cs = (cs, none) := by
  have hdrop : cs.dropWhile (· != '=') = [] :=
    List.dropWhile_eq_nil_iff.mpr fun c hc => bne_iff_ne.mpr fun he => h (he ▸ hc)
  rw [splitEquals, hdrop]

namespace Invocation

theorem bind_pair?_eq_some_iff {given : Option String} {pair : String × String} :
    given.bind pair? = some pair ↔ Writes given pair := by
  constructor
  · intro h
    obtain ⟨text, rfl, hpair⟩ := Option.bind_eq_some_iff.mp h
    by_cases hmem : '=' ∈ text.toList
    · obtain ⟨before, value, htext, hbefore⟩ := List.eq_append_cons_of_mem hmem
      rw [pair?, htext, Argument.splitEquals_append_cons hbefore] at hpair
      exact ⟨text, before, value, rfl, htext, hbefore, (Option.some.inj hpair).symm⟩
    · rw [pair?, Argument.splitEquals_of_not_mem hmem] at hpair
      cases hpair
  · rintro ⟨text, before, value, rfl, htext, hbefore, rfl⟩
    rw [Option.bind_some, pair?, htext, Argument.splitEquals_append_cons hbefore]

theorem exists_writes {given : Option String} (h : IsPair given) : ∃ pair, Writes given pair := by
  obtain ⟨text, rfl, hmem⟩ := h
  obtain ⟨before, value, htext, hbefore⟩ := List.eq_append_cons_of_mem hmem
  exact ⟨_, text, before, value, rfl, htext, hbefore, rfl⟩

theorem exists_forall₂_writes {values : List (Option String)} (h : ∀ given ∈ values, IsPair given) :
    ∃ pairs, List.Forall₂ Writes values pairs := by
  induction values with
  | nil => exact ⟨[], .nil⟩
  | cons given rest ih =>
      obtain ⟨hgiven, hrest⟩ := List.forall_mem_cons.mp h
      obtain ⟨pair, hpair⟩ := exists_writes hgiven
      obtain ⟨pairs, hpairs⟩ := ih hrest
      exact ⟨pair :: pairs, .cons hpair hpairs⟩

theorem inTurn_pairs (option : String) :
    Answer.InTurn Writes
      (fun _ given => match given.bind pair? with
        | some pair => .ok pair
        | none => .error (.notAPair option given))
      (fun _ => pairs option) where
  item _ given pair := by
    rw [← bind_pair?_eq_some_iff]
    cases given.bind pair? <;> simp
  nil _ := rfl
  cons _ given rest := by
    rw [pairs]
    cases given.bind pair? <;> rfl

/-! ### The context -/

/-- A context is that of the pairs that the options are given, and no more. -/
structure StartsFrom (i : Invocation) (context : Context) : Prop where
  tags : ∃ pairs, List.Forall₂ Writes i.tags pairs ∧ context.tags.IsWrittenBy pairs
  bindings : ∃ pairs, List.Forall₂ Writes i.binds pairs ∧ context.bindings.IsWrittenBy pairs
  frames : context.frames = []

theorem context_eq_bind (i : Invocation) :
    i.context = (pairs "--tag" i.tags).bind fun tags =>
      (pairs "--bind" i.binds).map fun binds => .ofTables (.ofList tags) (.ofList binds) := by
  rw [context]
  cases pairs "--tag" i.tags <;> rfl

theorem context_eq_ok_iff {i : Invocation} {context : Context} :
    i.context = .ok context ↔ i.StartsFrom context := by
  have hpairs (option : String) (values : List (Option String))
      (found : List (String × String)) :
      pairs option values = .ok found ↔ List.Forall₂ Writes values found :=
    (inTurn_pairs option).eq_ok_iff (i := 0)
  rw [context_eq_bind, Answer.bind_map_eq_ok_iff]
  simp only [hpairs]
  constructor
  · rintro ⟨tags, binds, htags, hbinds, rfl⟩
    exact ⟨⟨tags, htags, Table.isWrittenBy_ofList tags⟩,
      ⟨binds, hbinds, Table.isWrittenBy_ofList binds⟩, rfl⟩
  · rintro ⟨⟨tags, htags, hwritten⟩, ⟨binds, hbinds, hbound⟩, hframes⟩
    refine ⟨tags, binds, htags, hbinds, ?_⟩
    rw [← Table.isWrittenBy_iff.mp hwritten, ← Table.isWrittenBy_iff.mp hbound, Context.ofTables,
      ← hframes]

/-! ### The log -/

/-- What a run reports besides an error: that the limit of nesting is lowered, that the grammar was
read, and what happened. -/
def log (i : Invocation) (asked : Int) (count : Nat) (events : List Event) : List String :=
  i.warnings asked ++ i.loadedLog count (.ofString i.grammar) ++ i.eventLog events

theorem ne_error_of_head {line : String} {c : Char} (h : line.toList.head? = some c)
    (hc : c ≠ 'e') (text : String) : line ≠ "error: " ++ text := by
  rintro rfl
  rw [String.toList_append] at h
  exact hc (Option.some.inj h).symm

theorem ne_error_of_mem_logged (i : Invocation) {source message : String}
    (hsource : source = readerName ∨ source = grammarName) :
    ∀ line ∈ i.logged source message, ∀ text, line ≠ "error: " ++ text := by
  intro line hline
  rw [logged] at hline
  split at hline
  · obtain rfl := List.mem_singleton.mp hline
    have hhead : (source ++ ": " ++ message).toList.head? = some 'a' := by
      rw [String.toList_append, String.toList_append]
      rcases hsource with rfl | rfl
      · rfl
      · rfl
    exact ne_error_of_head hhead (by decide)
  · cases hline

theorem ne_error_of_mem_log (i : Invocation) (asked : Int) (count : Nat) (events : List Event) :
    ∀ line ∈ i.log asked count events, ∀ text, line ≠ "error: " ++ text := by
  rw [log]
  refine List.forall_mem_append.mpr ⟨List.forall_mem_append.mpr ⟨?_, ?_⟩, ?_⟩
  · intro line hline
    rw [warnings] at hline
    split at hline
    · cases hline
    · split at hline
      · exact i.ne_error_of_mem_logged (.inr rfl) line hline
      · obtain rfl := List.mem_singleton.mp hline
        have hhead : (Grammar.loweredMessage asked).toList.head? = some 'm' := by
          rw [Grammar.loweredMessage]
          simp only [String.toList_append]
          rfl
        exact ne_error_of_head hhead (by decide)
  · exact i.ne_error_of_mem_logged (.inl rfl)
  · intro line hline
    obtain ⟨message, -, hmessage⟩ := List.mem_flatMap.mp hline
    exact i.ne_error_of_mem_logged (.inr rfl) line hmessage

/-! ### The calls -/

/-- The step that is called: the expansion of a template, if there is one, or else of a name. -/
inductive Asks (i : Invocation) (g : Grammar) : Step String → Prop where
  | template {rule : String} (hexpand : i.expand = some (some rule)) : Asks i g (g.expandWith rule)
  | name {name : String} (hexpand : i.expand = none) (hname : i.name = some name) :
      Asks i g (g.generateWith name)

theorem Asks.expansion?_eq {i : Invocation} {g : Grammar} {step : Step String}
    (h : i.Asks g step) : i.expansion? g = some (.ok step) := by
  cases h with
  | template hexpand => rw [expansion?, hexpand]
  | name hexpand hname => rw [expansion?, hexpand, hname]

/-- The errors of a call are those of an expansion by a grammar that was read, or of a template that
cannot be read. -/
theorem Asks.error_cases {i : Invocation} {g : Grammar} {step : Step String} (h : i.Asks g step)
    (hg : g.Parsed) {s : State} {e : ExpansionError} (he : (step s).1 = .error e) :
    e.IsExpected ∨ ∃ bad, e = .invalidRule bad := by
  cases h with
  | @template rule _ =>
      rw [Grammar.expandWith] at he
      cases hrule : Rule.ofLiteral rule with
      | error bad =>
          rw [hrule] at he
          cases he
          exact .inr ⟨bad, rfl⟩
      | ok found =>
          rw [hrule] at he
          have hparsed := (Rule.ofLiteral_eq_ok_iff.mp hrule).2
          exact .inl ((Grammar.safe_expandRule hg hparsed).isExpected s e he)
  | @name name _ _ => exact .inl ((Grammar.safe_generateWith hg name).isExpected s e he)

end Invocation

theorem parsed_of_readCognates {readFile : Path → Except FileError String} {path : Path}
    {cs : List Cognate} (h : readCognates readFile path = .ok (.ok cs)) (asked : Int) :
    (Grammar.ofCognates cs asked).Parsed := by
  rw [readCognates] at h
  split at h
  · cases h
  · split at h
    · cases h
    · split at h
      · rename_i found hread
        cases h
        exact Grammar.Parsed.insertMany nofun (Document.parsed_of_read hread)
      · cases h
      · cases h

/-! ### Runs -/

/-- Arguments ask for expansions, and these can begin: the options hold pairs, the file is read, and
there is a step to call. -/
structure Ready (readFile : Path → Except FileError String) (arguments : List String)
    (i : Invocation) (asked : Int) (cs : List Cognate) (step : Step String) : Prop where
  ofArguments : Invocation.ofArguments arguments = .ok i
  notCheck : i.check = false
  notList : i.list = false
  maxDepth : i.maxDepth = some asked
  tags : ∀ given ∈ i.tags, IsPair given
  binds : ∀ given ∈ i.binds, IsPair given
  file : readCognates readFile (.ofString i.grammar) = .ok (.ok cs)
  asks : i.Asks (.ofCognates cs asked) step

/-- What a report tells of a series of calls. -/
structure Tells (report : Report) (log : List String) (s : Series) : Prop where
  stdout : report.stdout = String.join (s.texts.map (· ++ "\n"))
  stderr : report.stderr = String.join
    ((log ++ s.failure.toList.map fun e => "error: " ++ e.message).map (· ++ "\n"))
  code : report.code = if s.failure.isSome then 1 else 0

theorem tells_printSeries (i : Invocation) (context : Context) (step : Step String) (n : Int)
    (log : List String) (chance : Chance) :
    let s := Series.run step context n.toNat chance
    Tells (printSeries i context step n log chance) (log ++ i.eventLog s.events) s := by
  intro s
  rw [printSeries]
  split
  · rename_i hfailure
    refine ⟨rfl, ?_, by rw [hfailure]; rfl⟩
    rw [hfailure, Option.toList_none, List.map_nil, List.append_nil]
    rfl
  · rename_i e hfailure
    refine ⟨rfl, ?_, by rw [hfailure]; rfl⟩
    rw [hfailure]
    rfl

/-- More lines only add to the text that they make. -/
theorem prefix_join_lines {lines more : List String} (h : lines <+: more) :
    (String.join (lines.map (· ++ "\n"))).toList <+:
      (String.join (more.map (· ++ "\n"))).toList := by
  obtain ⟨rest, rfl⟩ := h
  rw [List.map_append, String.join_append, String.toList_append]
  exact List.prefix_append _ _

namespace Ready

variable {readFile : Path → Except FileError String} {arguments : List String} {i : Invocation}
  {asked : Int} {cs : List Cognate} {step : Step String}

/-- How often the step is called is of no concern to the beginning. -/
theorem withCount (h : Ready readFile arguments i asked cs step) {count : Option Int}
    {others : List String}
    (hothers : Invocation.ofArguments others = .ok { i with count := count }) :
    Ready readFile others { i with count := count } asked cs step where
  ofArguments := hothers
  notCheck := h.notCheck
  notList := h.notList
  maxDepth := h.maxDepth
  tags := h.tags
  binds := h.binds
  file := h.file
  asks := by
    cases h.asks with
    | template hexpand => exact .template hexpand
    | name hexpand hname => exact .name hexpand hname

theorem exists_startsFrom (h : Ready readFile arguments i asked cs step) :
    ∃ context, i.StartsFrom context := by
  obtain ⟨tags, htags⟩ := Invocation.exists_forall₂_writes h.tags
  obtain ⟨binds, hbinds⟩ := Invocation.exists_forall₂_writes h.binds
  exact ⟨.ofTables (.ofList tags) (.ofList binds), ⟨tags, htags, Table.isWrittenBy_ofList tags⟩,
    ⟨binds, hbinds, Table.isWrittenBy_ofList binds⟩, rfl⟩

/-- The run that makes the calls. -/
theorem run_eq (h : Ready readFile arguments i asked cs step) {n : Int} (hn : i.count = some n)
    {context : Context} (hcontext : i.StartsFrom context) (chance : Chance) :
    run readFile chance arguments = .ok (printSeries i context step n
      (i.warnings asked ++ i.loadedLog cs.length (.ofString i.grammar)) chance) := by
  have hstart := Invocation.context_eq_ok_iff.mpr hcontext
  rw [run, h.ofArguments]
  simp only [runInvocation, hstart, h.maxDepth, runWithin, h.file]
  rw [useGrammar, h.notCheck, h.notList, h.asks.expansion?_eq, hn]
  rfl

end Ready

/-- A run prints the texts of its calls up to the first that fails, each on a line, and then the
error of that one; the calls are made one after the other on one stream of draws, and every one of
them in the context of the given pairs. Only a failure counts as an error. To ask for more calls
leaves what is printed and may only add to it. -/
theorem run_prints_calls {readFile : Path → Except FileError String} {arguments : List String}
    {i : Invocation} {asked : Int} {cs : List Cognate} {step : Step String}
    (h : Ready readFile arguments i asked cs step) {n : Int} (hn : i.count = some n)
    (chance : Chance) :
    ∃ context s report, s = Series.run step context n.toNat chance ∧ i.StartsFrom context ∧
      run readFile chance arguments = .ok report ∧ s.CallByCall step context chance n.toNat ∧
      Tells report (i.log asked cs.length s.events) s ∧
      (∀ line ∈ i.log asked cs.length s.events, ∀ text, line ≠ "error: " ++ text) ∧
      (∀ e, s.failure = some e → e.IsExpected ∨ ∃ bad, e = .invalidRule bad) ∧
      ∀ others m, Invocation.ofArguments others = .ok { i with count := some m } → n ≤ m →
        ∃ longer, run readFile chance others = .ok longer ∧
          report.stdout.toList <+: longer.stdout.toList := by
  obtain ⟨context, hcontext⟩ := h.exists_startsFrom
  have hcalls := Series.callByCall_run step context n.toNat chance
  refine ⟨context, _, _, rfl, hcontext, h.run_eq hn hcontext chance, hcalls,
    tells_printSeries i context step n _ chance, i.ne_error_of_mem_log asked cs.length _, ?_, ?_⟩
  · intro e he
    have hfails := (hcalls.failed e he).2
    exact h.asks.error_cases (parsed_of_readCognates h.file asked) hfails
  · intro others m hothers hle
    have hstarts : Invocation.StartsFrom { i with count := some m } context :=
      ⟨hcontext.tags, hcontext.bindings, hcontext.frames⟩
    refine ⟨_, (h.withCount hothers).run_eq rfl hstarts chance, ?_⟩
    have htexts := Series.texts_run_prefix step context (Int.toNat_le_toNat hle) chance
    rw [(tells_printSeries ..).stdout, (tells_printSeries ..).stdout]
    exact prefix_join_lines htexts

/-- A document with a tale, of which the second rule needs a binding. -/
def taleText : String :=
  "- name: tale\n  groups:\n  - tags: \x7bsize: small\x7d\n" ++
    "    rules: ['<@who> has <#4-9> hens', '<@gone>']\n"

/-- The tale in the document. -/
def taleCognates : List Cognate :=
  [⟨"tale", [⟨[⟨"<@who> has <#4-9> hens",
    [.binding "who", .literal " has ", .range 4 9, .literal " hens"]⟩,
    ⟨"<@gone>", [.binding "gone"]⟩], Table.insert ∅ "size" "small", ""⟩]⟩]

/-- The arguments for so many tales, where a tag is given twice. -/
def taleArguments (count : String) : List String :=
  ["farm.yml", "tale", "-n", count, "--bind", " who =a=b", "--tag", "size=big", "--tag=size=small"]

/-- What the arguments ask for. -/
def taleInvocation (n : Int) : Invocation :=
  ⟨"farm.yml", some "tale", some n, none, [some "size=big", some "size=small"],
    [some " who =a=b"], none, false, false, some 100, false⟩

/-- The third of four calls fails, and so would it among nine. -/
theorem run_prints_calls_tale :
    let readFile : Path → Except FileError String := fun _ => .ok taleText
    let chance : Chance := .ofArray #[0, 1, 0, 3, 1, 0]
    ∃ report longer, run readFile chance (taleArguments "4") = .ok report ∧
      report.stdout = "a=b has 5 hens\na=b has 7 hens\n" ∧
      report.stderr = "error: Unbound variable: gone\n" ∧ report.code = 1 ∧
      run readFile chance (taleArguments "9") = .ok longer ∧
      report.stdout.toList <+: longer.stdout.toList := by
  intro readFile chance
  have hread : Document.readStored taleText = .ok taleCognates :=
    Answer.toOption_eq_some_iff.mp (by decide +kernel)
  have hfile : readCognates readFile (.ofString "farm.yml") = .ok (.ok taleCognates) := by
    rw [readCognates, if_neg (by decide)]
    simp only [readFile, hread]
  have hready : Ready readFile (taleArguments "4") (taleInvocation 4) 100 taleCognates
      ((Grammar.ofCognates taleCognates 100).generateWith "tale") := by
    have htags : ∀ given ∈ (taleInvocation 4).tags, IsPair given := List.forall_mem_cons.mpr
      ⟨⟨_, rfl, by decide⟩, List.forall_mem_singleton.mpr ⟨_, rfl, by decide⟩⟩
    have hbinds : ∀ given ∈ (taleInvocation 4).binds, IsPair given :=
      List.forall_mem_singleton.mpr ⟨_, rfl, by decide⟩
    have hfour : Invocation.ofArguments (taleArguments "4") = .ok (taleInvocation 4) :=
      Answer.toOption_eq_some_iff.mp (by decide +kernel)
    exact ⟨hfour, rfl, rfl, rfl, htags, hbinds, hfile, .name rfl rfl⟩
  have hnine : Invocation.ofArguments (taleArguments "9") = .ok (taleInvocation 9) :=
    Answer.toOption_eq_some_iff.mp (by decide +kernel)
  obtain ⟨context, _, report, rfl, hstarts, hrun, -, htells, -, -, hlonger⟩ :=
    run_prints_calls hready rfl chance
  obtain ⟨longer, hrun', hprefix⟩ := hlonger (taleArguments "9") 9 hnine (by decide)
  obtain rfl : context = ⟨.ofList [("size", "small")], .ofList [("who", "a=b")], []⟩ := by
    have hcontext := Invocation.context_eq_ok_iff.mpr hstarts
    exact Option.some.inj ((Answer.toOption_eq_some_iff.mpr hcontext).symm.trans
      (by decide +kernel))
  refine ⟨report, longer, hrun, ?_, ?_, ?_, hrun', hprefix⟩
  · rw [htells.stdout]
    decide +kernel
  · rw [htells.stderr]
    decide +kernel
  · rw [htells.code]
    decide +kernel

end TaggedGrammar.CommandLine
