import AgentPrompts.Proofs.CommandLine.LastText
import AgentPrompts.Proofs.CommandLine.Leading
import AgentPrompts.Proofs.CommandLine.MachineReadable

/-! # Leaving out the word for generating

A command line without plain words that adds nothing to the shared objects does what it does behind
the word for generating. The word changes neither the options that are read nor the texts of the
paths. It changes how a path without a text is reported in JSON mode.
-/

namespace AgentPrompts.CommandLine

open Flags

namespace Invocation

variable {args args' : List String} {word : String} {h : Host}

theorem parsed_unnamed (args : List String) :
    Parsed.ofArgs .unnamed args [] = Parsed.ofArgs .spawnPrompts args [] := rfl

theorem ofArgs_of_error {e : ReadingError} (h : Parsed.ofArgs .unnamed args [] = .error e) :
    Invocation.ofArgs args = .error e := by
  rw [ofArgs, Command.all, readings, ← parsed_unnamed, h]
  rfl

theorem ofArgs_congr (hadds : AddsNothing args)
    (h : ∀ c, Parsed.ofArgs c args' [] = Parsed.ofArgs c args []) :
    Invocation.ofArgs args' = Invocation.ofArgs args := by
  have hreadings (cs : List Command) : readings args' cs [] = readings args cs [] := by
    induction cs with
    | nil => rfl
    | cons c cs ih =>
      rw [readings, readings, h]
      cases hp : Parsed.ofArgs c args [] with
      | error e => rfl
      | ok p => simp only [bind, Except.bind, hadds.additions_eq_nil hp, ih]
  rw [ofArgs, ofArgs, hreadings]
  cases hr : readings args Command.all [] with
  | error e => rfl
  | ok r =>
    have hnone : r.2 = [] := (hadds.parsed_of_readings hr).1
    simp only [bind, Except.bind, hnone, h]

theorem ofArgs_word_of_closed (hadds : AddsNothing args) (hword : startsWithDash word = false)
    (hws : readWords Command.unnamed.switches args = .ok none) :
    Invocation.ofArgs (word :: args) = Invocation.ofArgs args := by
  refine ofArgs_congr hadds fun c => ?_
  obtain ⟨hclosed, hclosed'⟩ := readWords_of_closed hword hws c
  rw [Parsed.ofArgs_apart, Parsed.ofArgs_apart, hclosed, hclosed', readOptions_word hword]

theorem unnamed_of_closed {i : Invocation} (hadds : AddsNothing args)
    (hi : Invocation.ofArgs args = .ok i)
    (hclosed : ∀ c : Command, readWords c.switches args = .ok none) :
    i.command = .unnamed ∧ i.words.isList = false := by
  obtain ⟨ws, _, hws, -, -, -, hcommand⟩ := exists_read hadds hi
  obtain rfl := Except.ok.inj ((hclosed i.command).symm.trans hws)
  rcases hcommand with ⟨hnamed, -⟩ | ⟨hunnamed, hwords⟩
  · cases hnamed
  · exact ⟨hunnamed, by rw [hwords]; rfl⟩

/-- Invocations that differ in nothing that generating looks at. -/
structure Alike (i i' : Invocation) : Prop where
  known : i'.command.allOptions = i.command.allOptions
  options : i'.options = i.options
  additions : i'.additions = i.additions

section Filter

variable {rs rest : List (Command × Parsed)} {p : Parsed}

theorem filter_noWords (h : ∀ r ∈ rs, r.2.words = wordsOf (some []) ∧ r.2.additions = []) :
    rs.filter (fun r => isText r.1.word (firstWord r.2.words r.2.additions)) = [] := by
  refine List.filter_eq_nil_iff.mpr fun r hr => ?_
  rw [(h r hr).1, (h r hr).2, firstWord_wordsOf]
  exact Bool.false_ne_true

theorem filter_word (h : ∀ r ∈ (Command.spawnPrompts, p) :: rest, r.2.additions = [])
    (hothers : ∀ r ∈ rest, r.1.word ≠ Command.spawnPrompts.word) :
    ((Command.spawnPrompts, p) :: rest).filter (fun r => isText r.1.word
      (firstWord (wordsOf (some [.text Command.spawnPrompts.word])) r.2.additions)) =
      [(Command.spawnPrompts, p)] := by
  have hnamed : ∀ r ∈ (Command.spawnPrompts, p) :: rest,
      isText r.1.word (firstWord (wordsOf (some [.text Command.spawnPrompts.word]))
        r.2.additions) = decide (r.1.word = Command.spawnPrompts.word) := by
    intro r hr
    rw [h r hr, firstWord_wordsOf]
    exact decide_eq_decide.mpr eq_comm
  rw [List.filter_congr hnamed, List.filter_cons_of_pos (by simp), List.filter_eq_nil_iff.mpr]
  exact fun r hr => by simp [hothers r hr]

end Filter

/-- Without plain words no command has a word, and behind the word for generating that command
alone has one. -/
theorem ofArgs_word_of_open (hadds : AddsNothing args)
    (hws : ∀ c : Command, readWords c.switches args = .ok (some []))
    (hws' : ∀ c : Command, readWords c.switches (Command.spawnPrompts.word :: args) =
      .ok (some [.text Command.spawnPrompts.word])) :
    (∃ e, Invocation.ofArgs args = .error e ∧
      Invocation.ofArgs (Command.spawnPrompts.word :: args) = .error e) ∨
    ∃ i i', Invocation.ofArgs args = .ok i ∧
      Invocation.ofArgs (Command.spawnPrompts.word :: args) = .ok i' ∧
      i.command = .unnamed ∧ i.words = .ofItems [] ∧ i'.command = .spawnPrompts ∧ Alike i i' := by
  have hword : startsWithDash Command.spawnPrompts.word = false := by decide
  have hreadings := readings_word hadds hword hws hws' Command.all
  rw [ofArgs, ofArgs, hreadings]
  cases h : readings args Command.all [] with
  | error e => exact Or.inl ⟨e, rfl, rfl⟩
  | ok r =>
    obtain ⟨rs, additions⟩ := r
    obtain ⟨rfl, hparsed⟩ := hadds.parsed_of_readings h
    have hread : ∀ r ∈ rs, r.2.words = wordsOf (some []) ∧ r.2.additions = [] := by
      intro r hr
      have hp := hparsed r hr
      obtain ⟨ws, _, hws₁, -, he⟩ := Parsed.exists_of_ofArgs hp
      obtain rfl := Except.ok.inj ((hws r.1).symm.trans hws₁)
      exact ⟨congrArg Parsed.words he, hadds.additions_eq_nil hp⟩
    have hcommands : rs.map Prod.fst = Command.all := commands_of_readings h
    obtain ⟨⟨_, p⟩, rest, rfl, rfl, hrest⟩ := List.map_eq_cons_iff.mp hcommands
    have hunnamed : Parsed.ofArgs .unnamed args [] = .ok p :=
      (parsed_unnamed args).trans (hparsed (.spawnPrompts, p) List.mem_cons_self)
    have hothers : ∀ r ∈ rest, r.1.word ≠ Command.spawnPrompts.word := by
      have hcommand : ∀ c ∈ rest.map Prod.fst, c.word ≠ Command.spawnPrompts.word := by
        rw [hrest]
        decide
      exact fun r hr => hcommand r.1 (List.mem_map_of_mem hr)
    obtain ⟨hwords, hnone⟩ := hread _ List.mem_cons_self
    refine Or.inr ⟨⟨.unnamed, p.words, p.options, p.additions⟩,
      ⟨.spawnPrompts, .ofItems [], p.options, []⟩, ?_, ?_, rfl, hwords, rfl, rfl, rfl, hnone.symm⟩
    · simp only [bind, Except.bind, filter_noWords hread, hunnamed]
      rfl
    · simp only [bind, Except.bind, Except.map, List.filter_map, Function.comp_def,
        filter_word (fun r hr => (hread r hr).2) hothers]
      rfl

section Alike

variable {i i' : Invocation} {name : String}

theorem Alike.option (halike : Alike i i') (name : String) : i'.option name = i.option name := by
  rw [Invocation.option, Invocation.option, halike.options, halike.additions]

theorem Alike.isOn (halike : Alike i i') (name : String) : i'.isOn name = i.isOn name := by
  rw [Invocation.isOn, Invocation.isOn, halike.option]

theorem Alike.value (halike : Alike i i') (name : String) : i'.value name = i.value name := by
  rw [Invocation.value, Invocation.value, halike.option, halike.additions]

theorem Alike.usageError? (halike : Alike i i') : i'.usageError? = i.usageError? := by
  have hnames : i'.optionNames = i.optionNames := by
    rw [optionNames, optionNames, halike.options]
  simp only [Invocation.usageError?, halike.known, hnames, halike.option, halike.additions]

theorem pathOption_word (o : OptionUsage) (hword : startsWithDash word = false) (v : Value) :
    pathOption v (word :: args) o.flag = pathOption v args o.flag := by
  simp only [pathOption, lastFlagText_word hword]

theorem Alike.spawnOptions (halike : Alike i i') (hword : startsWithDash word = false) :
    i'.spawnOptions (word :: args) = i.spawnOptions args := by
  have hpath (flag : String) (hflag : flag ∈ ["--template", "--out-dir", "--project"]) (v : Value) :
      pathOption v (word :: args) flag = pathOption v args flag := by
    obtain ⟨o, -, rfl⟩ : ∃ o ∈ OptionUsage.documented, o.flag = flag := by
      revert flag
      decide
    exact pathOption_word o hword v
  simp only [Invocation.spawnOptions, halike.value, hpath, List.mem_cons, true_or, or_true]

end Alike

end Invocation

structure Exit.Same (x x' : Exit) : Prop where
  stdout : x.console.stdout = x'.console.stdout
  stderr : x.console.stderr = x'.console.stderr
  status : x.status = x'.status
  disk : x.disk = x'.disk

theorem Exit.Same.refl (x : Exit) : x.Same x := ⟨rfl, rfl, rfl, rfl⟩

/-- A command line that asks for JSON and gives a path without a text. Without a word that failure
is reported as JSON, and behind the word for generating it is not. -/
def LosesJson (args : List String) : Prop :=
  ∃ i f, Invocation.ofArgs args = .ok i ∧ i.words.isList = true ∧ i.usageError? = none ∧
    i.isOn "json" = true ∧ i.spawnOptions args = .error f

section Runs

variable {args : List String} {i i' : Invocation}

theorem not_same_noText (e : TextError) (d : Disk) :
    ¬ (Exit.fail false {} d (.noText e)).Same (.fail true {} d (.noText e)) := by
  intro hsame
  obtain ⟨message, -, line, document, hline, hreadable⟩ :=
    machineReadable_fail (d := d) (Failure.worded_noText e)
  have hplain : (Exit.fail false {} d (.noText e)).console.stderr =
      "Error: " ++ e.message ++ "\n" := by
    simp [Exit.fail, Failure.commandError?, Console.stderr, CommandError.lines, Failure.message?]
  exact not_machineReadable hplain message ⟨line, document, hsame.stderr.trans hline, hreadable⟩

/-- The commands differ where the text of a path is missing in JSON mode, and only there. -/
theorem same_act_iff (halike : i.Alike i') (hplain : i'.additions.isOn "json" = false)
    (hcommand : i.command = .unnamed)
    (hwords : i.words = .ofItems []) (hcommand' : i'.command = .spawnPrompts) (h : Host) :
    (act i' (Command.spawnPrompts.word :: args) h).Same (act i args h) ↔
      ¬ (i.isOn "json" = true ∧ ∃ f, i.spawnOptions args = .error f) := by
  have hword : startsWithDash Command.spawnPrompts.word = false := by decide
  have hlist : i.words.isList = true := by rw [hwords]; rfl
  have hitems : i.words.items = [] := by rw [hwords, Datum.items_ofItems]
  simp only [act, hcommand, hcommand', hlist, hitems, not_true, if_false,
    halike.spawnOptions hword, halike.isOn, hplain]
  cases ho : i.spawnOptions args with
  | ok o => exact iff_of_true (.refl _) (by simp)
  | error f =>
    cases hmode : i.isOn "json" with
    | false => exact iff_of_true (.refl _) (by simp)
    | true =>
      obtain ⟨e, rfl⟩ := exists_noText_of_spawnOptions ho
      exact iff_of_false (not_same_noText e h.disk) (by simp)

theorem same_run_iff_of_error {args' : List String} {e : ReadingError}
    (he : Invocation.ofArgs args = .error e) (he' : Invocation.ofArgs args' = .error e)
    (platform : String) (h : Host) :
    (run args' platform h).Same (run args platform h) ↔ ¬ LosesJson args := by
  refine iff_of_true ?_ ?_
  · rw [run, run, he, he']
    exact .refl _
  · rintro ⟨i, _, hi, -⟩
    rw [he] at hi
    cases hi

theorem same_run_iff_of_closed {word : String} (hadds : AddsNothing args)
    (hword : startsWithDash word = false)
    (hws : readWords Command.unnamed.switches args = .ok none)
    (hi : Invocation.ofArgs args = .ok i) (hhelp : i.isOn "help" = false)
    (hversion : i.isOn "version" = false) (platform : String) (h : Host) :
    (run (word :: args) platform h).Same (run args platform h) ↔ ¬ LosesJson args := by
  have hclosed (c : Command) := (readWords_of_closed hword hws c).1
  obtain ⟨hcommand, hlist⟩ := Invocation.unnamed_of_closed hadds hi hclosed
  have hi' : Invocation.ofArgs (word :: args) = .ok i :=
    (Invocation.ofArgs_word_of_closed hadds hword hws).trans hi
  refine iff_of_true ?_ ?_
  · have hact : act i (word :: args) h = act i args h := by simp only [act, hcommand, hlist]; rfl
    rw [run_of_ofArgs hi hhelp hversion, run_of_ofArgs hi' hhelp hversion, hact]
    exact .refl _
  · rintro ⟨_, _, hi₁, hlist₁, -⟩
    obtain rfl := Except.ok.inj (hi.symm.trans hi₁)
    rw [hlist] at hlist₁
    cases hlist₁

theorem same_run_iff_of_alike (hadds : AddsNothing args) (hi : Invocation.ofArgs args = .ok i)
    (hi' : Invocation.ofArgs (Command.spawnPrompts.word :: args) = .ok i')
    (halike : i.Alike i') (hcommand : i.command = .unnamed) (hwords : i.words = .ofItems [])
    (hcommand' : i'.command = .spawnPrompts) (hhelp : i.isOn "help" = false)
    (hversion : i.isOn "version" = false) (platform : String) (h : Host) :
    (run (Command.spawnPrompts.word :: args) platform h).Same (run args platform h) ↔
      ¬ LosesJson args := by
  have hloses : LosesJson args ↔ i.usageError? = none ∧ i.isOn "json" = true ∧
      ∃ f, i.spawnOptions args = .error f := by
    constructor
    · rintro ⟨_, f, hi₁, -, husage, hjson, hf⟩
      obtain rfl := Except.ok.inj (hi.symm.trans hi₁)
      exact ⟨husage, hjson, f, hf⟩
    · rintro ⟨husage, hjson, f, hf⟩
      exact ⟨i, f, hi, by rw [hwords]; rfl, husage, hjson, hf⟩
  have hplain : i'.additions.isOn "json" = false := by
    rw [halike.additions, hadds.additions_of_ofArgs hi]
    exact isOn_nil _ (by decide)
  have hhelp' : i'.isOn "help" = false := (halike.isOn _).trans hhelp
  have hversion' : i'.isOn "version" = false := (halike.isOn _).trans hversion
  rw [run_of_ofArgs hi hhelp hversion, run_of_ofArgs hi' hhelp' hversion', hloses,
    halike.usageError?, halike.additions]
  cases i.usageError? with
  | some e => exact iff_of_true (.refl _) (by simp)
  | none => simpa using same_act_iff halike hplain hcommand hwords hcommand' h

end Runs

/-- Without plain words, help and version, and with nothing added to the shared objects, a run is the
one behind the word for generating, unless its failure is reported as JSON only without the word. -/
theorem same_run_word_iff {args : List String}
    (hwords : ∀ p, Parsed.ofArgs .unnamed args [] = .ok p → p.words.items = [])
    (hswitches : ∀ i, Invocation.ofArgs args = .ok i →
      i.isOn "help" = false ∧ i.isOn "version" = false)
    (hadds : AddsNothing args) (platform : String) (h : Host) :
    (run (Command.spawnPrompts.word :: args) platform h).Same (run args platform h) ↔
      ¬ LosesJson args := by
  have hword : startsWithDash Command.spawnPrompts.word = false := by decide
  cases hp : Parsed.ofArgs .unnamed args [] with
  | error e =>
    exact same_run_iff_of_error (Invocation.ofArgs_of_error hp)
      (Invocation.ofArgs_of_error (Parsed.ofArgs_word_of_error hword hp)) platform h
  | ok p =>
    have hnone := hwords p hp
    obtain ⟨ws, _, hws, -, rfl⟩ := Parsed.exists_of_ofArgs hp
    cases ws with
    | none =>
      cases hi : Invocation.ofArgs args with
      | error e =>
        have hi' := (Invocation.ofArgs_word_of_closed hadds hword hws).trans hi
        exact same_run_iff_of_error hi hi' platform h
      | ok i =>
        obtain ⟨hhelp, hversion⟩ := hswitches i hi
        exact same_run_iff_of_closed hadds hword hws hi hhelp hversion platform h
    | some vs =>
      obtain rfl : vs = [] := (Datum.items_ofItems vs).symm.trans hnone
      have hopen := readWords_of_open hword hws
      rcases Invocation.ofArgs_word_of_open hadds (fun c => (hopen c).1) (fun c => (hopen c).2) with
        ⟨e, he, he'⟩ | ⟨i, i', hi, hi', hcommand, hleft, hcommand', halike⟩
      · exact same_run_iff_of_error he he' platform h
      · obtain ⟨hhelp, hversion⟩ := hswitches i hi
        exact same_run_iff_of_alike hadds hi hi' halike hcommand hleft hcommand' hhelp hversion
          platform h

/-- A dotted option that reaches no shared object gives a path the text of a record. -/
theorem same_run_word_iff_dotted :
    let args := ["--json", "--outDir.a.b", "1", "--count", "1", "--template", "t"]
    let h : Host := ⟨⟨.directory [("t", .file [65, 123, 78, 125])], []⟩, {}⟩
    (∀ p, Parsed.ofArgs .unnamed args [] = .ok p → p.words.items = []) ∧
      (∀ i, Invocation.ofArgs args = .ok i → i.isOn "help" = false ∧ i.isOn "version" = false) ∧
      AddsNothing args ∧ (run args "" h).status = ExitStatus.success ∧
      (run (Command.spawnPrompts.word :: args) "" h).Same (run args "" h) := by
  intro args h
  have hempty := forall_of_toOption_map (x := Parsed.ofArgs .unnamed args [])
    (f := fun p => p.words.items.isEmpty) (b := true) (by decide +kernel)
  have hwords : ∀ p, Parsed.ofArgs .unnamed args [] = .ok p → p.words.items = [] :=
    fun p hp => List.isEmpty_iff.mp (hempty p hp)
  have hswitches := Invocation.switchedOff_of_eval args (by decide +kernel)
  have hadds : AddsNothing args := addsNothing_of_eval (by decide +kernel)
  have htexts := forall_of_toOption_map (x := Invocation.ofArgs args)
    (f := fun i => (i.spawnOptions args).isOk) (b := true) (by decide +kernel)
  refine ⟨hwords, hswitches, hadds, by decide +kernel,
    (same_run_word_iff hwords hswitches hadds "" h).mpr ?_⟩
  rintro ⟨i, f, hi, -, -, -, hf⟩
  have hok := htexts i hi
  rw [hf] at hok
  cases hok

/-- A path without a text is reported as JSON without the word, and in plain text behind it. -/
theorem not_same_run_word_noText :
    ¬ ∀ (args : List String) (platform : String) (h : Host),
      (∀ p, Parsed.ofArgs .unnamed args [] = .ok p → p.words.items = []) →
      (∀ i, Invocation.ofArgs args = .ok i → i.isOn "help" = false ∧ i.isOn "version" = false) →
      (run (Command.spawnPrompts.word :: args) platform h).Same (run args platform h) := by
  intro hall
  let args := ["--json", "--template.toString", "1"]
  let h : Host := ⟨⟨.directory [], []⟩, {}⟩
  have hempty := forall_of_toOption_map (x := Parsed.ofArgs .unnamed args [])
    (f := fun p => p.words.items.isEmpty) (b := true) (by decide +kernel)
  have hswitches := Invocation.switchedOff_of_eval args (by decide +kernel)
  have hsame := hall args "" h (fun p hp => List.isEmpty_iff.mp (hempty p hp)) hswitches
  have hdiffer : (run (Command.spawnPrompts.word :: args) "" h).console.stderr ≠
      (run args "" h).console.stderr := by decide +kernel
  exact hdiffer hsame.stderr

end AgentPrompts.CommandLine
