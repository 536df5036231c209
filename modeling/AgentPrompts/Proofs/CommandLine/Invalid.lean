import AgentPrompts.Proofs.CommandLine.Additions
import AgentPrompts.Proofs.CommandLine.Effects
import AgentPrompts.Proofs.Settings.Refusal

/-! # Invalid settings

Every setting that cannot be used is reported as a configuration error, by the settings that
are loaded, by the counts that are read and by the exit status of the command line. Only a
count that hides its text is not: where its text is wanted for the report, another error
stands in. Command lines that add to the shared objects are left out, as the records of
configuration files would inherit what is added.
-/

namespace AgentPrompts

open Settings CommandLine

/-- What is reported for the value of a count: an error where it states no natural number, and
nothing that is no configuration error. -/
structure CountReported (flag : String) (v : Value) : Prop where
  badCount : (∀ n, ¬ v.States n) →
    ∃ e, parseCount flag v = .error (.configuration e) ∧ e.code = .invalidCount
  configuration : ∀ f, parseCount flag v = .error f → f.isConfiguration = true

theorem countReported {flag : String} {v : Value} (hshown : ¬ v.HidesText) :
    CountReported flag v := by
  have hrefusal : ∃ e, refusal flag v = .configuration e ∧ e.code = .invalidCount := by
    rcases v.asText_cases with ⟨shown, htext, -⟩ | ⟨e, -, hhides⟩
    · exact ⟨.notNatural flag shown, by rw [refusal, htext], rfl⟩
    · exact absurd hhides hshown
  obtain ⟨e, he, hcode⟩ := hrefusal
  constructor
  · intro hbad
    exact ⟨e, by rw [parseCount_of_not_states hbad, he], hcode⟩
  · intro f hf
    obtain ⟨-, rfl⟩ := parseCount_eq_error_iff.mp hf
    rw [he, Failure.isConfiguration]

/-- The count for which a generation asks does not hide its text, neither the value of its own
option nor, without one, the value that is given first. -/
structure SpawnOptions.ShowsCount (o : SpawnOptions) (h : Host) : Prop where
  option : ¬ o.count.HidesText
  sources : o.count = .absent → ∀ project, projectOf o.project = .ok project →
    ∀ v, FirstGiven (Settings.given h.disk h.environment project {} .count) v → ¬ v.HidesText

structure PromptOptions.ShowsCount (o : PromptOptions) (h : Host) : Prop where
  option : ¬ o.id.HidesText
  sources : ∀ project, projectOf o.project = .ok project →
    ∀ v, FirstGiven (Settings.given h.disk h.environment project {} .count) v → ¬ v.HidesText

section Options

variable {h : Host} {f : Failure} {args : List String} {flag : String} {v w : Value}

theorem isConfiguration_of_parseCount (hshown : ¬ v.HidesText)
    (hf : parseCount flag v = .error f) : f.isConfiguration = true :=
  (countReported hshown).configuration f hf

theorem exists_projectOf (h : pathOption v args flag = .ok w) :
    ∃ project, projectOf w = .ok project := by
  unfold pathOption at h
  split at h
  next => exact ⟨none, by rw [← Except.ok.inj h]; rfl⟩
  next s => exact ⟨some s, by rw [← Except.ok.inj h]; rfl⟩
  next =>
    split at h
    next s _ => exact ⟨some s, by rw [← Except.ok.inj h]; rfl⟩
    next =>
      split at h
      next s _ => exact ⟨some s, by rw [← Except.ok.inj h]; rfl⟩
      next => cases h

theorem not_hidesText_number (x : Number) : ¬ (Value.number x).HidesText := by
  rintro ⟨⟩

theorem isConfiguration_of_settings {o : SpawnOptions} (hshown : o.ShowsCount h)
    (hproject : ∃ project, projectOf o.project = .ok project) (hf : o.settings h = .error f) :
    f.isConfiguration = true := by
  obtain ⟨project, hproject⟩ := hproject
  rw [SpawnOptions.settings, hproject] at hf
  split at hf
  next habsent =>
    have hnone : o.count = .absent := isAbsent_iff.mp habsent
    refine isConfiguration_of_load (fun v hv => ?_) hf
    exact hshown.sources hnone project hproject v hv
  next =>
    rcases cases_of_bind_eq_error hf with hcount | ⟨count, hcount, hload⟩
    · cases hparse : parseCount "--count" o.count with
      | error f' =>
        rw [hparse] at hcount
        obtain rfl := Except.error.inj hcount
        exact isConfiguration_of_parseCount hshown.option hparse
      | ok x =>
        rw [hparse] at hcount
        cases hcount
    · -- A count that was read comes first and is a number, so its text is not hidden.
      obtain ⟨x, -, rfl⟩ := exists_of_map_eq_ok hcount
      have hload : Settings.load h.disk h.environment project
          ⟨.number x, o.template, o.outDir⟩ = .error f := hload
      refine isConfiguration_of_load (fun v hv => ?_) hload
      obtain rfl : v = .number x := eq_of_firstGiven hv (firstGiven_override rfl (by simp))
      exact not_hidesText_number x

theorem isConfiguration_of_promptSettings {o : PromptOptions} (hshown : o.ShowsCount h)
    (hproject : ∃ project, projectOf o.project = .ok project) (hf : o.settings h = .error f) :
    f.isConfiguration = true := by
  obtain ⟨project, hproject⟩ := hproject
  rw [PromptOptions.settings, hproject] at hf
  rcases cases_of_bind_eq_error hf with hagent | ⟨agent, -, hload⟩
  · rw [PromptOptions.agent] at hagent
    split at hagent
    next => cases hagent
    next =>
      rcases cases_of_bind_eq_error hagent with hparse | ⟨x, -, hzero⟩
      · exact isConfiguration_of_parseCount hshown.option hparse
      · dsimp only at hzero
        split at hzero
        next => rw [← Except.error.inj hzero, Failure.isConfiguration]
        next => cases hzero
  · refine isConfiguration_of_load (fun v hv => ?_) hload
    exact hshown.sources project hproject v hv

end Options

namespace CommandLine

/-- A command line that gets as far as its command. It adds nothing, as the records of
configuration files would inherit that too. -/
structure Passes (args : List String) (i : Invocation) : Prop where
  read : Invocation.ofArgs args = .ok i
  addsNothing : AddsNothing args
  noHelp : i.isOn "help" = false
  noVersion : i.isOn "version" = false ∨ i.command ≠ .unnamed
  noFault : i.usageError? = none

def IsGeneration (i : Invocation) : Prop :=
  i.command = .spawnPrompts ∨
    i.command = .unnamed ∧ i.words.isList = true ∧ i.words.items = []

section Runs

variable {args : List String} {i : Invocation} {platform : String} {h : Host} {f : Failure}

theorem run_of_passes (hi : Passes args i) : run args platform h = act i args h := by
  have hversion : ¬ (i.isOn "version" = true ∧ i.command = .unnamed) := by
    rintro ⟨hon, hcommand⟩
    rcases hi.noVersion with hoff | hnamed
    · rw [hon] at hoff
      cases hoff
    · exact hnamed hcommand
  rw [run, hi.read]
  simp only [hi.noHelp, hi.noFault, Bool.false_eq_true, if_false, Bool.and_eq_true,
    decide_eq_true_eq]
  rw [if_neg]
  rintro ⟨hon, hcommand, -⟩
  exact hversion ⟨hon, hcommand⟩

theorem act_of_isGeneration {o : SpawnOptions} (hi : IsGeneration i)
    (ho : i.spawnOptions args = .ok o) :
    act i args h = .ofOutcome (i.isOn "json") (spawnPrompts o h) := by
  rcases hi with hcommand | ⟨hcommand, hlist, hitems⟩
  · simp only [act, hcommand, ho]
  · simp only [act, hcommand, hlist, hitems, ho, not_true_eq_false, if_false]

theorem act_of_prompt {o : PromptOptions} (hi : i.command = .prompt)
    (ho : i.promptOptions args = .ok o) :
    act i args h = .ofOutcome (i.isOn "json") (showPrompt o h) := by
  simp only [act, hi, ho]

theorem status_of_isConfiguration {α : Type} {json : Bool} {o : Outcome α} (ho : o.result = .error f)
    (hf : f.isConfiguration = true) :
    (Exit.ofOutcome json o).status = ExitStatus.configuration := by
  rw [Exit.ofOutcome, ho]
  cases f with
  | configuration e => rfl
  | _ => cases hf

end Runs

structure ReportsInvalid (h : Host) : Prop where
  settings : ∀ project overrides count template outDir,
    FirstGiven (Settings.given h.disk h.environment project overrides .count) count →
    FirstGiven (Settings.given h.disk h.environment project overrides .template) template →
    FirstGiven (Settings.given h.disk h.environment project overrides .outDir) outDir →
    ¬ count.HidesText →
    Reported count template outDir (Settings.load h.disk h.environment project overrides)
  count : ∀ flag v, ¬ v.HidesText → CountReported flag v
  /-- A generation whose settings fail ends as a refused run and changes nothing. -/
  generation : ∀ args i o, Passes args i → IsGeneration i → i.spawnOptions args = .ok o →
    o.ShowsCount h → ∀ f, o.settings h = .error f → ∀ platform,
      (run args platform h).status = ExitStatus.configuration ∧
        (run args platform h).disk = h.disk
  prompt : ∀ args i o, Passes args i → i.command = .prompt → i.promptOptions args = .ok o →
    o.ShowsCount h → ∀ f, o.settings h = .error f → ∀ platform,
      (run args platform h).status = ExitStatus.configuration ∧
        (run args platform h).disk = h.disk

theorem reportsInvalid (h : Host) : ReportsInvalid h where
  settings _ _ _ _ _ hcount htemplate houtDir hshown :=
    reported_load hcount htemplate houtDir hshown
  count _ _ := countReported
  generation args i o hi hgeneration ho hshown f hf platform := by
    have hproject := exists_projectOf (SpawnOptions.readFrom ho).project
    have hconf := isConfiguration_of_settings hshown hproject hf
    rw [run_of_passes hi, act_of_isGeneration hgeneration ho, spawnPrompts_of_error hf]
    exact ⟨status_of_isConfiguration rfl hconf, rfl⟩
  prompt args i o hi hcommand ho hshown f hf platform := by
    have hproject := exists_projectOf (PromptOptions.readFrom ho).project
    have hconf := isConfiguration_of_promptSettings hshown hproject hf
    have hrun : showPrompt o h = ⟨{}, h.disk, .error f⟩ := by
      rw [showPrompt, PromptOptions.report_of_settings_eq_error hf]
    rw [run_of_passes hi, act_of_prompt hcommand ho, hrun]
    exact ⟨status_of_isConfiguration rfl hconf, rfl⟩

/-- A list of a record as count is shown by its text, in settings and by itself; with a good count
both texts are reported. Command lines give a record as count and the number 0 as agent. -/
theorem reportsInvalid_overridden :
    let h : Host := ⟨⟨.directory [], []⟩, {}⟩
    let bad : Source := ⟨.list [.record [("a", .null)]], .number .zero, .text "o"⟩
    let good : Source := ⟨.number (.ofNat 3), .bool true, .text ""⟩
    let generation := ["--count.a", "1", "--template", "t"]
    let prompt := ["prompt", "--id", "0"]
    ((∃ e, Settings.load h.disk h.environment none bad = .error (.configuration e) ∧
      e.code = .invalidCount) ∧
    ∃ e, Settings.load h.disk h.environment none good = .error (.configuration e) ∧
      ReportsTexts (.bool true) (.text "") e) ∧
    (∃ e, parseCount "--id" bad.count = .error (.configuration e) ∧ e.code = .invalidCount) ∧
    (run generation "" h).status = ExitStatus.configuration ∧
    (run prompt "" h).status = ExitStatus.configuration := by
  intro h bad good generation prompt
  have hreports := reportsInvalid h
  have hbad : ¬ bad.count.HidesText := Value.not_hidesText_of_isOk (by decide +kernel)
  have hgood : ¬ good.count.HidesText := not_hidesText_number _
  refine ⟨⟨?_, ?_⟩, ?_, ?_, ?_⟩
  · have hreported := hreports.settings none bad _ _ _ (.here ⟨rfl, by simp [bad, Source.get]⟩)
      (.here ⟨rfl, by simp [bad, Source.get]⟩) (.here ⟨rfl, by simp [bad, Source.get]⟩) hbad
    exact hreported.badCount fun n he => by cases he
  · have hreported := hreports.settings none good _ _ _ (.here ⟨rfl, by simp [good, Source.get]⟩)
      (.here ⟨rfl, by simp [good, Source.get]⟩) (.here ⟨rfl, by simp [good, Source.get]⟩) hgood
    refine hreported.badTexts 3 rfl ?_
    rintro ⟨⟨t, ht, -⟩, -⟩
    cases ht
  · exact (hreports.count "--id" bad.count hbad).badCount fun n hn => by simp [Value.States, bad] at hn
  · obtain ⟨i, hi, hchecks⟩ := exists_of_toOption_map (x := Invocation.ofArgs generation)
      (f := fun i => ((i.isOn "help", i.isOn "version", i.usageError?),
        (i.command, i.words.isList, i.words.items.isEmpty),
        (i.spawnOptions generation).toOption.map fun o =>
          (o.count.isAbsent, o.count.asText.isOk, (o.settings h).isOk)))
      (b := ((false, false, none), (.unnamed, true, true), some (false, true, false)))
      (by decide +kernel)
    simp only [Prod.mk.injEq] at hchecks
    obtain ⟨⟨hhelp, hversion, hfault⟩, ⟨hcommand, hlist, hnone⟩, hspawn⟩ := hchecks
    obtain ⟨o, ho, hcount⟩ := exists_of_toOption_map hspawn
    simp only [Prod.mk.injEq] at hcount
    obtain ⟨hgiven, hshown, hfails⟩ := hcount
    have hpasses : Passes generation i :=
      ⟨hi, addsNothing_of_eval (by decide +kernel), hhelp, Or.inl hversion, hfault⟩
    have hshows : o.ShowsCount h :=
      { option := Value.not_hidesText_of_isOk hshown
        sources := fun habsent => by
          rw [habsent] at hgiven
          cases hgiven }
    cases hf : o.settings h with
    | ok r =>
      rw [hf] at hfails
      cases hfails
    | error f =>
      exact (hreports.generation generation i o hpasses
        (Or.inr ⟨hcommand, hlist, List.isEmpty_iff.mp hnone⟩) ho hshows f hf "").1
  · obtain ⟨i, hi, hchecks⟩ := exists_of_toOption_map (x := Invocation.ofArgs prompt)
      (f := fun i => ((i.isOn "help", i.isOn "version", i.usageError?), i.command,
        (i.promptOptions prompt).toOption.map fun o =>
          (o.id.asText.isOk, o.project.isAbsent, (o.settings h).isOk)))
      (b := ((false, false, none), .prompt, some (true, true, false))) (by decide +kernel)
    simp only [Prod.mk.injEq] at hchecks
    obtain ⟨⟨hhelp, hversion, hfault⟩, hcommand, hshow⟩ := hchecks
    obtain ⟨o, ho, hid⟩ := exists_of_toOption_map hshow
    simp only [Prod.mk.injEq] at hid
    obtain ⟨hshown, hproject, hfails⟩ := hid
    have hpasses : Passes prompt i :=
      ⟨hi, addsNothing_of_eval (by decide +kernel), hhelp, Or.inl hversion, hfault⟩
    have hshows : o.ShowsCount h :=
      { option := Value.not_hidesText_of_isOk hshown
        sources := fun project hp v hv => by
          -- Nothing but the default gives a count.
          rw [isAbsent_iff.mp hproject] at hp
          obtain rfl := Except.ok.inj hp
          obtain rfl := (firstGiven_iff .count v).mp hv
          exact Value.not_hidesText_of_isOk (by decide +kernel) }
    cases hf : o.settings h with
    | ok r =>
      rw [hf] at hfails
      cases hfails
    | error f => exact (hreports.prompt prompt i o hpasses hcommand ho hshows f hf "").1

/-- A record with a member that stands in for the rule for its text is no count, and loading it
fails with another error. -/
theorem not_isConfiguration_of_hidesText :
    ¬ ∀ (d : Disk) (env : Environment) (project : Option String) (overrides : Source)
      (f : Failure), Settings.load d env project overrides = .error f →
        f.isConfiguration = true := by
  intro hall
  let content := Utf8.encode "\x7b\"count\":\x7b\"toString\":1\x7d\x7d"
  let d : Disk := ⟨.directory [(".swarmrc", .file content)], []⟩
  have hcheck : (match Settings.load d {} none {} with
      | .ok _ => true
      | .error f => f.isConfiguration) = false := by
    decide +kernel
  cases hload : Settings.load d {} none {} with
  | ok r =>
    rw [hload] at hcheck
    cases hcheck
  | error f =>
    rw [hload] at hcheck
    exact absurd (hall d {} none {} f hload) (by simpa using hcheck)

end CommandLine

end AgentPrompts
