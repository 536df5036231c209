import AgentPrompts.Proofs.CommandLine.Effects
import AgentPrompts.Proofs.CommandLine.Lookup
import AgentPrompts.Proofs.Json.RoundTrip
import AgentPrompts.Proofs.Settings.Refusal

/-! # Failures in JSON mode

With the option for JSON a failure of a command is one line with a document that holds its
message and the exit status. What is wrong with the options is met before they are consulted for
the mode, and so is a path without a text behind the word of a command: these failures are
reported in plain text also with that option, if nothing was added to the shared objects.
-/

namespace AgentPrompts

open Json

namespace Failure

/-- A failure that is reported with its message, and with one of two statuses. -/
def Worded (f : Failure) : Prop :=
  ∃ e, f.commandError? = some e ∧ f.message? = some e.message ∧
    (e.status = ExitStatus.general ∨ e.status = ExitStatus.configuration)

theorem worded_configuration (e : ConfigurationError) : (configuration e).Worded :=
  ⟨_, rfl, rfl, Or.inr rfl⟩

theorem worded_access (e : AccessError) : (access e).Worded := ⟨_, rfl, rfl, Or.inl rfl⟩

theorem worded_noText (e : TextError) : (noText e).Worded := ⟨_, rfl, rfl, Or.inl rfl⟩

theorem worded_projectNotText (v : Value) : (projectNotText v).Worded := ⟨_, rfl, rfl, Or.inl rfl⟩

theorem worded_unknownCommand (word : Datum) (additions : Additions) :
    (CommandLine.unknownCommand word additions).Worded := by
  rw [CommandLine.unknownCommand]
  split
  next => exact ⟨_, rfl, rfl, Or.inl rfl⟩
  next e _ => exact worded_noText e

end Failure

section Commands

open Failure

variable {h : Host} {f : Failure} {flag : String} {v : Value}

theorem worded_of_parseCount (hf : parseCount flag v = .error f) : f.Worded := by
  obtain ⟨-, rfl⟩ := parseCount_eq_error_iff.mp hf
  rw [refusal]
  split
  next => exact worded_configuration _
  next => exact worded_noText _

theorem worded_of_projectOf (hf : projectOf v = .error f) : f.Worded := by
  unfold projectOf at hf
  split at hf
  next => cases hf
  next => cases hf
  next => cases hf
  next => exact Except.error.inj hf ▸ worded_projectNotText v

theorem worded_of_check {s : Source} (hf : Settings.check s = .error f) : f.Worded := by
  by_cases hgood : ∃ n, s.count = .number (.ofNat n)
  · obtain ⟨n, hn⟩ := hgood
    rw [Settings.check_of_count hn] at hf
    split at hf
    next => cases hf
    next => exact Except.error.inj hf ▸ worded_configuration _
  · rw [Settings.check_of_badCount (not_exists.mp hgood)] at hf
    rw [← Except.error.inj hf, Settings.countRefusal]
    split
    next => exact worded_configuration _
    next => exact worded_noText _

theorem worded_of_loadTemplate {d : Disk} {path : String} (hf : loadTemplate d path = .error f) :
    f.Worded := by
  rw [loadTemplate] at hf
  split at hf
  next => cases hf
  next => exact Except.error.inj hf ▸ worded_configuration _
  next => exact Except.error.inj hf ▸ worded_configuration _

theorem worded_of_generate {s : Settings} {d : Disk} (hf : (generate s d).result = .error f) :
    f.Worded := by
  cases ht : loadTemplate d s.template with
  | error f' =>
    rw [Generation.generate_of_noTemplate ht] at hf
    exact worded_of_loadTemplate (Except.error.inj hf ▸ ht)
  | ok template =>
    obtain ⟨e, rfl⟩ := Generation.access_of_generate ht hf
    exact worded_access e

theorem worded_of_settings {o : SpawnOptions} (hf : o.settings h = .error f) : f.Worded := by
  rw [SpawnOptions.settings] at hf
  split at hf
  all_goals rcases cases_of_bind_eq_error hf with hcount | ⟨count, -, hf⟩
  · cases hcount
  · rcases cases_of_bind_eq_error hf with hproject | ⟨project, -, hload⟩
    · exact worded_of_projectOf hproject
    · exact worded_of_check hload
  · cases hparse : parseCount "--count" o.count with
    | error f' =>
      rw [hparse] at hcount
      exact worded_of_parseCount (Except.error.inj hcount ▸ hparse)
    | ok x =>
      rw [hparse] at hcount
      cases hcount
  · rcases cases_of_bind_eq_error hf with hproject | ⟨project, -, hload⟩
    · exact worded_of_projectOf hproject
    · exact worded_of_check hload

theorem worded_of_agent {o : PromptOptions} (hf : o.agent = .error f) : f.Worded := by
  rw [PromptOptions.agent] at hf
  split at hf
  next => cases hf
  next =>
    rcases cases_of_bind_eq_error hf with hparse | ⟨x, -, hzero⟩
    · exact worded_of_parseCount hparse
    · dsimp only at hzero
      split at hzero
      next => exact Except.error.inj hzero ▸ worded_configuration _
      next => cases hzero

theorem worded_of_report {o : PromptOptions} (hf : o.report h = .error f) : f.Worded := by
  rcases cases_of_bind_eq_error hf with hagent | ⟨agent, -, hf⟩
  · exact worded_of_agent hagent
  rcases cases_of_bind_eq_error hf with hproject | ⟨project, -, hf⟩
  · exact worded_of_projectOf hproject
  rcases cases_of_bind_eq_error hf with hload | ⟨settings, -, hf⟩
  · exact worded_of_check hload
  rcases cases_of_bind_eq_error hf with htemplate | ⟨template, -, hf⟩
  · exact worded_of_loadTemplate htemplate
  · cases hf

theorem spawnPrompts_failed {o : SpawnOptions} (hjson : o.json.isOn = true)
    (hf : (spawnPrompts o h).result = .error f) :
    f.Worded ∧ (spawnPrompts o h).console = {} := by
  cases hs : o.settings h with
  | error f' =>
    rw [spawnPrompts_of_error hs] at hf ⊢
    exact ⟨worded_of_settings (Except.error.inj hf ▸ hs), rfl⟩
  | ok s =>
    cases hdry : o.dryRun.isOn with
    | true =>
      rw [spawnPrompts_of_dryRun hs hdry] at hf
      cases hf
    | false =>
      rw [spawnPrompts_of_settings hs hdry] at hf ⊢
      have hresult := result_reportGeneration_eq_error_iff.mp hf
      exact ⟨worded_of_generate hresult, console_reportGeneration_of_error hresult
        (OutputMode.isChatty_of_silent (Or.inl hjson))⟩

theorem showPrompt_failed {o : PromptOptions} (hf : (showPrompt o h).result = .error f) :
    f.Worded ∧ (showPrompt o h).console = {} := by
  cases hr : o.report h with
  | error f' =>
    rw [showPrompt, hr] at hf ⊢
    exact ⟨worded_of_report (Except.error.inj hf ▸ hr), rfl⟩
  | ok r =>
    rw [showPrompt, hr] at hf
    cases hf

end Commands

namespace CommandLine

open Failure

/-- Standard error that is one line with a document, which holds the message and the status. -/
def MachineReadable (x : Exit) (message : String) : Prop :=
  ∃ line document, x.console.stderr = line ++ "\n" ∧ '\n' ∉ line.toList ∧
    parse? line = some document ∧ document.member? "error" = some (.text message) ∧
    document.member? "code" = some (.ofNat x.status)

/-- What fails before the mode of the output is asked for. -/
inductive FailsEarly (i : Invocation) (args : List String) : Failure → Prop where
  | usage {e : UsageError} (h : i.usageError? = some e) : FailsEarly i args (.usage e)
  | words (h : i.usageError? = none) (hcommand : i.command = .unnamed)
      (hwords : i.words.isList = false) : FailsEarly i args (.usage .wordsUnreadable)
  | spawnOptions {f : Failure} (h : i.usageError? = none) (hcommand : i.command = .spawnPrompts)
      (hf : i.spawnOptions args = .error f) : FailsEarly i args f
  | promptOptions {f : Failure} (h : i.usageError? = none) (hcommand : i.command = .prompt)
      (hf : i.promptOptions args = .error f) : FailsEarly i args f

inductive FailsLate (i : Invocation) (args : List String) (h : Host) : Failure → Prop where
  | unknownCommand {v : Datum} {vs : List Datum} (hcommand : i.command = .unnamed)
      (hwords : i.words.items = v :: vs) : FailsLate i args h (unknownCommand v i.additions)
  | options {f : Failure} (hcommand : i.command = .unnamed) (hwords : i.words.items = [])
      (hf : i.spawnOptions args = .error f) : FailsLate i args h f
  | spawned {o : SpawnOptions} {f : Failure}
      (hcommand : i.command = .spawnPrompts ∨ i.command = .unnamed ∧ i.words.items = [])
      (ho : i.spawnOptions args = .ok o) (hf : (spawnPrompts o h).result = .error f) :
      FailsLate i args h f
  | prompted {o : PromptOptions} {f : Failure} (hcommand : i.command = .prompt)
      (ho : i.promptOptions args = .ok o) (hf : (showPrompt o h).result = .error f) :
      FailsLate i args h f

/-- What a run that fails with the option for JSON has printed. -/
structure ReportsFailure (i : Invocation) (args : List String) (h : Host) (x : Exit) : Prop where
  stdout : x.console.stdout = ""
  early : (∃ f, FailsEarly i args f) → ∃ f message, FailsEarly i args f ∧
    f.message? = some message ∧ x.console.stderr = "Error: " ++ message ++ "\n" ∧
    ∀ message', ¬ MachineReadable x message'
  late : (∀ f, ¬ FailsEarly i args f) → ∃ f message, FailsLate i args h f ∧
    f.message? = some message ∧ MachineReadable x message

section Reports

variable {i : Invocation} {args : List String} {h : Host} {f : Failure} {d : Disk}

theorem isPlain_commandError {e : CommandError}
    (he : e.status = ExitStatus.general ∨ e.status = ExitStatus.configuration) :
    e.toJson.IsPlain := by
  have hstatus : e.status < Number.exactBound := by rcases he with he | he <;> rw [he] <;> decide
  have hcode : (Json.ofNat e.status).IsPlain := .number hstatus
  rw [CommandError.toJson]
  cases e.hint with
  | none =>
    refine .of_names ["error", "code"] rfl (by decide) (by decide) ?_
    simpa using ⟨IsPlain.text _, hcode⟩
  | some hint =>
    refine .of_names ["error", "code", "hint"] rfl (by decide) (by decide) ?_
    simpa using ⟨IsPlain.text _, hcode, IsPlain.text _⟩

theorem machineReadable_fail (hf : f.Worded) : ∃ message, f.message? = some message ∧
    MachineReadable (.fail true {} d f) message := by
  obtain ⟨e, he, hmessage, hstatus⟩ := hf
  have hplain := isPlain_commandError hstatus
  refine ⟨e.message, hmessage, e.toJson.compact, e.toJson, ?_, newline_notMem_compact hplain,
    parse?_compact hplain, rfl, ?_⟩
  · simp [Exit.fail, he, Console.stderr, CommandError.lines]
  · simp only [Exit.fail, he, Option.getD_some]
    rfl

theorem parse?_error (message : String) : parse? ("Error: " ++ message) = none := by
  have hscan : (Token.scan ⟨.nothing, []⟩ "Error: ".toList).isNone = true := by decide +kernel
  have hnone := Token.scan_append ⟨.nothing, []⟩ "Error: ".toList message.toList
  rw [Option.isNone_iff_eq_none.mp hscan, Option.bind_none, Token.scan] at hnone
  rw [parse?, Token.ofChars?, String.toList_append, hnone]
  rfl

theorem not_machineReadable {x : Exit} {message : String}
    (hx : x.console.stderr = "Error: " ++ message ++ "\n") (message' : String) :
    ¬ MachineReadable x message' := by
  rintro ⟨line, document, hline, -, hparse, -, -⟩
  rw [hx, String.append_left_inj] at hline
  rw [← hline, parse?_error] at hparse
  cases hparse

theorem exists_noText_of_pathOption {v : Value} {flag : String}
    (hf : pathOption v args flag = .error f) : ∃ e, f = .noText e := by
  unfold pathOption at hf
  split at hf
  next => cases hf
  next => cases hf
  next =>
    split at hf
    next => cases hf
    next =>
      split at hf
      next => cases hf
      next e _ => exact ⟨e, (Except.error.inj hf).symm⟩

theorem exists_noText_of_spawnOptions (hf : i.spawnOptions args = .error f) :
    ∃ e, f = .noText e := by
  rcases cases_of_bind_eq_error hf with ht | ⟨template, -, hf⟩
  · exact exists_noText_of_pathOption ht
  rcases cases_of_bind_eq_error hf with ho | ⟨outDir, -, hf⟩
  · exact exists_noText_of_pathOption ho
  rcases cases_of_bind_eq_error hf with hp | ⟨project, -, hf⟩
  · exact exists_noText_of_pathOption hp
  · cases hf

theorem exists_noText_of_promptOptions (hf : i.promptOptions args = .error f) :
    ∃ e, f = .noText e := by
  rcases cases_of_bind_eq_error hf with ht | ⟨template, -, hf⟩
  · exact exists_noText_of_pathOption ht
  rcases cases_of_bind_eq_error hf with hp | ⟨project, -, hf⟩
  · exact exists_noText_of_pathOption hp
  · cases hf

theorem FailsEarly.commandError? (hf : FailsEarly i args f) :
    ∃ message, f.message? = some message ∧ f.commandError? = some { message := message } := by
  cases hf with
  | usage => exact ⟨_, rfl, rfl⟩
  | words => exact ⟨_, rfl, rfl⟩
  | spawnOptions _ _ hf =>
    obtain ⟨e, rfl⟩ := exists_noText_of_spawnOptions hf
    exact ⟨_, rfl, rfl⟩
  | promptOptions _ _ hf =>
    obtain ⟨e, rfl⟩ := exists_noText_of_promptOptions hf
    exact ⟨_, rfl, rfl⟩

theorem reportsFailure_of_early (hf : FailsEarly i args f) (h : Host) :
    ReportsFailure i args h (.fail false {} d f) where
  stdout := rfl
  early _ := by
    obtain ⟨message, hmessage, he⟩ := hf.commandError?
    have hstderr : (Exit.fail false {} d f).console.stderr = "Error: " ++ message ++ "\n" := by
      simp [Exit.fail, he, Console.stderr, CommandError.lines]
    exact ⟨f, message, hf, hmessage, hstderr, not_machineReadable hstderr⟩
  late hnot := absurd hf (hnot f)

theorem reportsFailure_of_late (hnot : ∀ f, ¬ FailsEarly i args f) (hf : FailsLate i args h f)
    (hworded : f.Worded) : ReportsFailure i args h (.fail true {} d f) where
  stdout := rfl
  early := fun ⟨f, hf⟩ => absurd hf (hnot f)
  late _ := by
    obtain ⟨message, hmessage, hdocument⟩ := machineReadable_fail hworded
    exact ⟨f, message, hf, hmessage, hdocument⟩

theorem reportsFailure_ofOutcome {α : Type} {o : Outcome α} (hnot : ∀ f, ¬ FailsEarly i args f)
    (hlate : ∀ f, o.result = .error f → FailsLate i args h f)
    (hfailed : ∀ f, o.result = .error f → f.Worded ∧ o.console = {})
    (hstatus : (Exit.ofOutcome true o).status ≠ ExitStatus.success) :
    ReportsFailure i args h (.ofOutcome true o) := by
  rw [Exit.ofOutcome] at hstatus ⊢
  split
  next hok =>
    rw [hok] at hstatus
    exact absurd rfl hstatus
  next f hf =>
    obtain ⟨hworded, hconsole⟩ := hfailed f hf
    rw [hconsole]
    exact reportsFailure_of_late hnot (hlate f hf) hworded

theorem isOn_json_of_spawnOptions {o : SpawnOptions} (ho : i.spawnOptions args = .ok o) :
    o.json.isOn = i.isOn "json" := by
  obtain ⟨template, -, ho⟩ := exists_of_bind_eq_ok ho
  obtain ⟨outDir, -, ho⟩ := exists_of_bind_eq_ok ho
  obtain ⟨project, -, ho⟩ := exists_of_bind_eq_ok ho
  obtain rfl := Except.ok.inj ho
  exact (Invocation.isOn_eq i "json").symm

theorem reportsFailure_spawned {o : SpawnOptions} (hnot : ∀ f, ¬ FailsEarly i args f)
    (hcommand : i.command = .spawnPrompts ∨ i.command = .unnamed ∧ i.words.items = [])
    (ho : i.spawnOptions args = .ok o) (hjson : i.isOn "json" = true)
    (hstatus : (Exit.ofOutcome true (spawnPrompts o h)).status ≠ ExitStatus.success) :
    ReportsFailure i args h (.ofOutcome true (spawnPrompts o h)) := by
  have hmode : o.json.isOn = true := (isOn_json_of_spawnOptions ho).trans hjson
  exact reportsFailure_ofOutcome hnot (fun f hf => .spawned hcommand ho hf)
    (fun f hf => spawnPrompts_failed hmode hf) hstatus

/-- Nothing fails early if the options are in order, the words are a list where the unnamed command
needs one, and each path of a named command has a text. -/
theorem not_failsEarly (husage : i.usageError? = none)
    (hlist : i.command = .unnamed → i.words.isList = true)
    (hspawn : i.command = .spawnPrompts → ∃ o, i.spawnOptions args = .ok o)
    (hprompt : i.command = .prompt → ∃ o, i.promptOptions args = .ok o) (f : Failure) :
    ¬ FailsEarly i args f := by
  rintro (he | ⟨-, hcommand, hwords⟩ | ⟨-, hcommand, hf⟩ | ⟨-, hcommand, hf⟩)
  · rw [husage] at he
    cases he
  · rw [hlist hcommand] at hwords
    cases hwords
  · obtain ⟨o, ho⟩ := hspawn hcommand
    rw [ho] at hf
    cases hf
  · obtain ⟨o, ho⟩ := hprompt hcommand
    rw [ho] at hf
    cases hf

theorem reportsFailure_unnamed (hplain : i.additions.isOn "json" = false)
    (husage : i.usageError? = none) (hjson : i.isOn "json" = true)
    (hcommand : i.command = .unnamed) (hstatus : (act i args h).status ≠ ExitStatus.success) :
    ReportsFailure i args h (act i args h) := by
  by_cases hlist : i.words.isList = true
  · have hnot : ∀ f, ¬ FailsEarly i args f :=
      not_failsEarly husage (fun _ => hlist) (by simp [hcommand]) (by simp [hcommand])
    cases hwords : i.words.items with
    | cons v vs =>
      simp only [act, hcommand, hlist, not_true, if_false, hwords, hjson]
      exact reportsFailure_of_late hnot (.unknownCommand hcommand hwords)
        (worded_unknownCommand v _)
    | nil =>
      cases ho : i.spawnOptions args with
      | error f =>
        simp only [act, hcommand, hlist, not_true, if_false, hwords, hjson, ho]
        obtain ⟨e, he⟩ := exists_noText_of_spawnOptions ho
        exact reportsFailure_of_late hnot (.options hcommand hwords ho) (he ▸ worded_noText e)
      | ok o =>
        simp only [act, hcommand, hlist, not_true, if_false, hwords, hjson, ho] at hstatus ⊢
        exact reportsFailure_spawned hnot (Or.inr ⟨hcommand, hwords⟩) ho hjson hstatus
  · simp only [act, hcommand, hlist, hplain]
    exact reportsFailure_of_early (.words husage hcommand (Bool.not_eq_true _ ▸ hlist)) h

theorem reportsFailure_act (hplain : i.additions.isOn "json" = false)
    (husage : i.usageError? = none) (hjson : i.isOn "json" = true)
    (hstatus : (act i args h).status ≠ ExitStatus.success) :
    ReportsFailure i args h (act i args h) := by
  cases hcommand : i.command with
  | unnamed => exact reportsFailure_unnamed hplain husage hjson hcommand hstatus
  | spawnPrompts =>
    cases ho : i.spawnOptions args with
    | error f =>
      simp only [act, hcommand, ho, hplain]
      exact reportsFailure_of_early (.spawnOptions husage hcommand ho) h
    | ok o =>
      simp only [act, hcommand, ho, hjson] at hstatus ⊢
      have hnot := not_failsEarly husage (by simp [hcommand]) (fun _ => ⟨o, ho⟩) (by simp [hcommand])
      exact reportsFailure_spawned hnot (Or.inl hcommand) ho hjson hstatus
  | prompt =>
    cases ho : i.promptOptions args with
    | error f =>
      simp only [act, hcommand, ho, hplain]
      exact reportsFailure_of_early (.promptOptions husage hcommand ho) h
    | ok o =>
      simp only [act, hcommand, ho, hjson] at hstatus ⊢
      have hnot := not_failsEarly husage (by simp [hcommand]) (by simp [hcommand]) (fun _ => ⟨o, ho⟩)
      exact reportsFailure_ofOutcome hnot (fun f hf => .prompted hcommand ho hf)
        (fun f hf => showPrompt_failed hf) hstatus

end Reports

/-- With the option for JSON a failure of a command is reported as JSON, and a failure before the
option is consulted in plain text. Neither prints anything on standard output. -/
theorem run_reports_failure {args : List String} {i : Invocation}
    (hi : Invocation.ofArgs args = .ok i) (hadds : AddsNothing args) (hjson : i.isOn "json" = true)
    (hhelp : i.isOn "help" = false) (hversion : i.isOn "version" = false) (platform : String)
    (h : Host) (hstatus : (run args platform h).status ≠ ExitStatus.success) :
    ReportsFailure i args h (run args platform h) := by
  have hplain : i.additions.isOn "json" = false := by
    rw [hadds.additions_of_ofArgs hi]
    exact isOn_nil _ (by decide)
  rw [run_of_ofArgs hi hhelp hversion, hplain] at hstatus ⊢
  cases husage : i.usageError? with
  | some e => exact reportsFailure_of_early (.usage husage) h
  | none =>
    rw [husage] at hstatus
    exact reportsFailure_act hplain husage hjson hstatus

/-- One failure that is met late, and one that is met early. -/
theorem run_reports_failure_both :
    let h : Host := ⟨⟨.directory [], []⟩, {}⟩
    (let args := ["--json", "--count", "x"]
      ∃ i, Invocation.ofArgs args = .ok i ∧ AddsNothing args ∧
        (i.isOn "json", i.isOn "help", i.isOn "version") = (true, false, false) ∧
        (run args "" h).status = ExitStatus.configuration ∧
        ReportsFailure i args h (run args "" h)) ∧
    let args := ["prompt", "--json", "--template.toString", "1"]
    ∃ i, Invocation.ofArgs args = .ok i ∧ AddsNothing args ∧
      (i.isOn "json", i.isOn "help", i.isOn "version") = (true, false, false) ∧
      (run args "" h).status = ExitStatus.general ∧ ReportsFailure i args h (run args "" h) := by
  intro h
  have hreports : ∀ {args : List String} {i : Invocation}, Invocation.ofArgs args = .ok i →
      AddsNothing args → (i.isOn "json", i.isOn "help", i.isOn "version") = (true, false, false) →
      (run args "" h).status ≠ ExitStatus.success → ReportsFailure i args h (run args "" h) := by
    intro args i hi hadds hswitches hstatus
    obtain ⟨hjson, hhelp, hversion⟩ := by simpa only [Prod.mk.injEq] using hswitches
    exact run_reports_failure hi hadds hjson hhelp hversion "" h hstatus
  constructor
  · intro args
    obtain ⟨i, hi, hswitches⟩ := exists_of_toOption_map (x := Invocation.ofArgs args)
      (f := fun i => (i.isOn "json", i.isOn "help", i.isOn "version"))
      (b := (true, false, false)) (by decide +kernel)
    have hadds : AddsNothing args := addsNothing_of_eval (by decide +kernel)
    exact ⟨i, hi, hadds, hswitches, by decide +kernel,
      hreports hi hadds hswitches (by decide +kernel)⟩
  · intro args
    obtain ⟨i, hi, hswitches⟩ := exists_of_toOption_map (x := Invocation.ofArgs args)
      (f := fun i => (i.isOn "json", i.isOn "help", i.isOn "version"))
      (b := (true, false, false)) (by decide +kernel)
    have hadds : AddsNothing args := addsNothing_of_eval (by decide +kernel)
    exact ⟨i, hi, hadds, hswitches, by decide +kernel,
      hreports hi hadds hswitches (by decide +kernel)⟩

/-- An unknown option is reported in plain text, whatever the other options ask for. -/
theorem not_machineReadable_unknownOption :
    ¬ ∀ (args : List String) (platform : String) (h : Host) (i : Invocation),
      Invocation.ofArgs args = .ok i → i.isOn "json" = true → i.isOn "help" = false →
      i.isOn "version" = false → (run args platform h).status ≠ ExitStatus.success →
      (run args platform h).console.stdout = "" ∧
        ∃ message, MachineReadable (run args platform h) message := by
  intro hall
  let args := ["--json", "--foo"]
  let h : Host := ⟨⟨.directory [], []⟩, {}⟩
  obtain ⟨i, hi, hswitches⟩ : ∃ i, Invocation.ofArgs args = .ok i ∧
      (i.isOn "json", i.isOn "help", i.isOn "version") = (true, false, false) :=
    exists_of_toOption_map (by decide +kernel)
  obtain ⟨hjson, hhelp, hversion⟩ := by simpa only [Prod.mk.injEq] using hswitches
  have hstderr : (run args "" h).console.stderr =
      "Error: " ++ (UsageError.unknownOption "foo").message ++ "\n" := by decide +kernel
  obtain ⟨-, message, hreadable⟩ :=
    hall args "" h i hi hjson hhelp hversion (by decide +kernel)
  exact not_machineReadable hstderr message hreadable

end CommandLine

end AgentPrompts
