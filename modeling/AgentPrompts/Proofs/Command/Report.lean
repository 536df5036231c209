import AgentPrompts.Command
import AgentPrompts.Proofs.Generation.Lines
import AgentPrompts.Proofs.Settings.Resolution
import AgentPrompts.Proofs.Step

/-! # Reports of generations

A generation is reported with its own result and its own disk. What a generation that
returned prints is one document in JSON mode, else its lines; remarks go to standard error
and appear in text mode only.
-/

namespace AgentPrompts

namespace Console

@[simp] theorem out_append (a b : Console) : (a ++ b).out = a.out ++ b.out := rfl

@[simp] theorem err_append (a b : Console) : (a ++ b).err = a.err ++ b.err := rfl

@[simp] theorem text_nil : text [] = "" := rfl

@[simp] theorem text_singleton (line : String) : text [line] = line ++ "\n" := by
  simp [text]

@[simp] theorem stdout_empty : ({} : Console).stdout = "" := rfl

@[simp] theorem stderr_empty : ({} : Console).stderr = "" := rfl

end Console

namespace OutputMode

variable {m : OutputMode}

theorem isChatty_of_silent (h : m.json ∨ m.quiet) : m.isChatty = false := by
  rcases h with h | h <;> simp [isChatty, h]

theorem info_of_not_isChatty (h : m.isChatty = false) (message : String) : m.info message = {} := by
  simp [info, h]

theorem err_output (m : OutputMode) (document : Json) (plain : String) :
    (m.output document plain).err = [] := by
  rw [output]
  split
  next => rfl
  next => split <;> rfl

end OutputMode

section Reports

variable {m : OutputMode} {g : Generation} {r : GenerateResult} {f : Failure}

@[simp] theorem disk_reportGeneration : (reportGeneration m g).disk = g.disk := by
  rw [reportGeneration]
  split <;> rfl

@[simp] theorem result_reportGeneration :
    (reportGeneration m g).result = g.result.map SpawnReport.generated := by
  rw [reportGeneration]
  cases g.result <;> rfl

theorem result_reportGeneration_eq_error_iff :
    (reportGeneration m g).result = .error f ↔ g.result = .error f := by
  rw [result_reportGeneration]
  cases g.result <;> simp [Except.map]

theorem result_reportGeneration_eq_ok_iff {report : SpawnReport} :
    (reportGeneration m g).result = .ok report ↔ ∃ r, g.result = .ok r ∧ report = .generated r := by
  rw [result_reportGeneration]
  cases g.result <;> simp [Except.map, eq_comm]

theorem out_remarks (m : OutputMode) (r : GenerateResult) : (remarks m r).out = [] := by
  simp only [remarks, OutputMode.warn, OutputMode.info]
  split <;> split <;> rfl

theorem remarks_of_not_isChatty (h : m.isChatty = false) (r : GenerateResult) :
    remarks m r = {} := by
  simp only [remarks, OutputMode.warn, OutputMode.info_of_not_isChatty h, ite_self]
  rfl

theorem out_reportGeneration (h : g.result = .ok r) (hl : g.emissions.map Emission.line = r.lines) :
    (reportGeneration m g).console.out =
      if m.quiet then [] else if m.json then [r.toJson.pretty] else r.lines := by
  obtain ⟨json, quiet⟩ := m
  cases json <;> cases quiet <;>
    simp [reportGeneration, h, hl, out_remarks, OutputMode.isChatty, OutputMode.output]

theorem stdout_reportGeneration (h : g.result = .ok r)
    (hl : g.emissions.map Emission.line = r.lines) :
    (reportGeneration m g).console.stdout =
      if m.quiet then "" else if m.json then r.toJson.pretty ++ "\n"
      else formatGenerateResult r ++ "\n" := by
  have hne : r.lines ≠ [] := List.cons_ne_nil _ _
  rw [Console.stdout, out_reportGeneration h hl, formatGenerateResult_eq,
    ← Console.text_eq_intercalate hne]
  split
  next => rfl
  next => split <;> simp

theorem console_reportGeneration_of_error (h : g.result = .error f) (hm : m.isChatty = false) :
    (reportGeneration m g).console = {} := by
  simp [reportGeneration, h, hm]

theorem stderr_reportGeneration (hm : m.isChatty = false) :
    (reportGeneration m g).console.stderr = "" := by
  rw [Console.stderr, reportGeneration]
  split
  next => rfl
  next r hr =>
    rw [remarks_of_not_isChatty hm]
    split <;> simp [OutputMode.err_output]

end Reports

section Runs

variable {o : SpawnOptions} {h : Host} {s : Settings} {f : Failure}

theorem load_of_settings (hs : o.settings h = .ok s) : ∃ count project,
    Settings.load h.disk h.environment project ⟨count, o.template, o.outDir⟩ = .ok s := by
  rw [SpawnOptions.settings] at hs
  split at hs
  all_goals
    obtain ⟨count, _, hs⟩ := exists_of_bind_eq_ok hs
    obtain ⟨project, _, hs⟩ := exists_of_bind_eq_ok hs
    exact ⟨_, _, hs⟩

theorem usable_of_settings (hs : o.settings h = .ok s) : s.Usable := by
  obtain ⟨_, _, hload⟩ := load_of_settings hs
  exact Settings.usable_of_load hload

theorem spawnPrompts_of_error (hs : o.settings h = .error f) :
    spawnPrompts o h = ⟨{}, h.disk, .error f⟩ := by
  rw [spawnPrompts, hs]

theorem spawnPrompts_of_dryRun (hs : o.settings h = .ok s) (hdry : o.dryRun.isOn = true) :
    spawnPrompts o h = ⟨o.mode.output (planGeneration s).toJson (formatPlan (planGeneration s)),
      h.disk, .ok (.planned (planGeneration s))⟩ := by
  rw [spawnPrompts, hs]
  simp only [if_pos hdry]

theorem spawnPrompts_of_settings (hs : o.settings h = .ok s) (hdry : o.dryRun.isOn = false) :
    spawnPrompts o h = reportGeneration o.mode (generate s h.disk) := by
  rw [spawnPrompts, hs]
  simp only [hdry, Bool.false_eq_true, if_false]

end Runs

namespace PromptOptions

def settings (o : PromptOptions) (h : Host) : Except Failure Settings := do
  let _ ← o.agent
  let project ← projectOf o.project
  Settings.load h.disk h.environment project { template := o.template }

theorem report_eq (o : PromptOptions) (h : Host) : o.report h = (do
    let agent ← o.agent
    let settings ← o.settings h
    let template ← loadTemplate h.disk settings.template
    pure ⟨agent, renderPrompt template agent⟩) := by
  rw [report]
  cases hagent : o.agent with
  | error f => rfl
  | ok agent =>
    simp only [settings, hagent, bind, Except.bind]
    cases projectOf o.project <;> rfl

theorem exists_of_report {o : PromptOptions} {h : Host} {r : PromptReport}
    (hr : o.report h = .ok r) : ∃ agent settings template, o.agent = .ok agent ∧
      o.settings h = .ok settings ∧ loadTemplate h.disk settings.template = .ok template ∧
      r = ⟨agent, renderPrompt template agent⟩ := by
  rw [report_eq] at hr
  obtain ⟨agent, hagent, hr⟩ := exists_of_bind_eq_ok hr
  obtain ⟨settings, hsettings, hr⟩ := exists_of_bind_eq_ok hr
  obtain ⟨template, htemplate, hr⟩ := exists_of_bind_eq_ok hr
  exact ⟨agent, settings, template, hagent, hsettings, htemplate, (Except.ok.inj hr).symm⟩

theorem result_showPrompt (o : PromptOptions) (h : Host) :
    (showPrompt o h).result = o.report h := by
  rw [showPrompt]
  cases o.report h <;> rfl

theorem parseCount_of_agent {o : PromptOptions} {agent : Number} (hagent : o.agent = .ok agent)
    (hid : o.id.isAbsent = false) : parseCount "--id" o.id = .ok agent := by
  rw [PromptOptions.agent, hid] at hagent
  obtain ⟨given, hgiven, hagent⟩ := exists_of_bind_eq_ok hagent
  beta_reduce at hagent
  split at hagent
  next => cases hagent
  next =>
    obtain rfl := Except.ok.inj hagent
    exact hgiven

theorem report_of_settings_eq_error {o : PromptOptions} {h : Host} {f : Failure}
    (hf : o.settings h = .error f) : o.report h = .error f := by
  rw [report_eq, hf]
  cases hagent : o.agent with
  | error f' =>
    rw [settings, hagent] at hf
    obtain rfl : f' = f := Except.error.inj hf
    rfl
  | ok agent => rfl

theorem load_of_settings {o : PromptOptions} {h : Host} {s : Settings}
    (hs : o.settings h = .ok s) : ∃ project,
    Settings.load h.disk h.environment project { template := o.template } = .ok s := by
  obtain ⟨agent, -, hs⟩ := exists_of_bind_eq_ok hs
  obtain ⟨project, -, hs⟩ := exists_of_bind_eq_ok hs
  exact ⟨project, hs⟩

end PromptOptions

end AgentPrompts
