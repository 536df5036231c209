import AgentPrompts.CommandLine.Run
import AgentPrompts.Proofs.Command.Report

/-! # Effects of command lines

A command line changes the disk only when it generates prompts, with settings that are
usable and a template that was read before. What the settings or the template are to blame
for ends with a status of its own, before anything is changed or printed.
-/

namespace AgentPrompts

namespace Failure

def status (f : Failure) : Nat := (f.commandError?.getD { message := "" }).status

theorem status_access (e : AccessError) : (access e).status = ExitStatus.general := rfl

end Failure

section Options

open CommandLine

variable {i : Invocation} {args : List String}

/-- The options of a generation as an invocation has them: each path is read with its flag. -/
structure SpawnOptions.ReadFrom (o : SpawnOptions) (i : Invocation) (args : List String) :
    Prop where
  count : o.count = i.value "count"
  template : pathOption (i.value "template") args "--template" = .ok o.template
  outDir : pathOption (i.value "outDir") args "--out-dir" = .ok o.outDir
  project : pathOption (i.value "project") args "--project" = .ok o.project
  dryRun : o.dryRun = i.value "dryRun"

structure PromptOptions.ReadFrom (o : PromptOptions) (i : Invocation) (args : List String) :
    Prop where
  id : o.id = i.value "id"
  template : pathOption (i.value "template") args "--template" = .ok o.template
  project : pathOption (i.value "project") args "--project" = .ok o.project

theorem SpawnOptions.readFrom {o : SpawnOptions} (h : i.spawnOptions args = .ok o) :
    o.ReadFrom i args := by
  obtain ⟨template, htemplate, h⟩ := exists_of_bind_eq_ok h
  obtain ⟨outDir, houtDir, h⟩ := exists_of_bind_eq_ok h
  obtain ⟨project, hproject, h⟩ := exists_of_bind_eq_ok h
  obtain rfl := Except.ok.inj h
  exact ⟨rfl, htemplate, houtDir, hproject, rfl⟩

theorem PromptOptions.readFrom {o : PromptOptions} (h : i.promptOptions args = .ok o) :
    o.ReadFrom i args := by
  obtain ⟨template, htemplate, h⟩ := exists_of_bind_eq_ok h
  obtain ⟨project, hproject, h⟩ := exists_of_bind_eq_ok h
  obtain rfl := Except.ok.inj h
  exact ⟨rfl, htemplate, hproject⟩

end Options

namespace Generation

variable {s : Settings} {d : Disk} {template : String} {f : Failure}

theorem generate_of_noTemplate (h : loadTemplate d s.template = .error f) :
    generate s d = ⟨[], d, .error f⟩ := by
  rw [generate, h]

theorem access_of_writeAndState (h : (writeAndState s template d).result = .error f) :
    ∃ e, f = .access e := by
  simp only [writeAndState] at h
  split at h
  next e _ => exact ⟨e, (Except.error.inj h).symm⟩
  next =>
    split at h
    next e _ => exact ⟨e, (Except.error.inj h).symm⟩
    next => cases h

theorem access_of_generate (ht : loadTemplate d s.template = .ok template)
    (h : (generate s d).result = .error f) : ∃ e, f = .access e := by
  rw [generate, ht] at h
  simp only at h
  split at h
  next e _ => exact ⟨e, (Except.error.inj h).symm⟩
  next => exact access_of_writeAndState h

end Generation

namespace CommandLine

open Generation

/-- A command line that asks to generate prompts, by the word for it or without any word. -/
structure Asks (args : List String) (i : Invocation) (o : SpawnOptions) : Prop where
  read : Invocation.ofArgs args = .ok i
  command : i.command = .spawnPrompts ∨ i.command = .unnamed ∧ i.words.items = []
  options : i.spawnOptions args = .ok o

/-- A run that generated prompts from the settings and the template that were there at the
start. -/
structure Generated (args : List String) (h : Host) (e : Exit) (i : Invocation)
    (o : SpawnOptions) (s : Settings) (template : String) : Prop extends Asks args i o where
  ran : ∃ json, e = .ofOutcome json (spawnPrompts o h)
  real : o.dryRun.isOn = false
  settings : o.settings h = .ok s
  usable : s.Usable
  loaded : loadTemplate h.disk s.template = .ok template
  disk : e.disk = (generate s h.disk).disk
  status : e.status = ExitStatus.success ∨ e.status = ExitStatus.general

structure Effects (args : List String) (h : Host) (e : Exit) : Prop where
  refused : e.status = ExitStatus.configuration → e.disk = h.disk ∧ e.console.stdout = ""
  changed : e.disk ≠ h.disk → ∃ i o s template, Generated args h e i o s template
  shown : ∀ i, Invocation.ofArgs args = .ok i → i.command = .prompt → e.disk = h.disk

section Runs

variable {args : List String} {h : Host} {i : Invocation} {e : Exit} {json : Bool}

theorem effects_of_unchanged (hdisk : e.disk = h.disk)
    (hout : e.status = ExitStatus.configuration → e.console.stdout = "") : Effects args h e where
  refused hstatus := ⟨hdisk, hout hstatus⟩
  changed hne := absurd hdisk hne
  shown _ _ _ := hdisk

theorem effects_fail (args : List String) (h : Host) (json : Bool) (f : Failure) :
    Effects args h (.fail json {} h.disk f) :=
  effects_of_unchanged rfl fun _ => rfl

theorem effects_of_success (hdisk : e.disk = h.disk) (hstatus : e.status = ExitStatus.success) :
    Effects args h e :=
  effects_of_unchanged hdisk fun hrefused => by
    rw [hstatus] at hrefused
    cases hrefused

theorem effects_showPrompt (args : List String) (h : Host) (json : Bool) (o : PromptOptions) :
    Effects args h (.ofOutcome json (showPrompt o h)) := by
  rw [showPrompt]
  split
  next f _ => exact effects_fail args h json f
  next => exact effects_of_success rfl rfl

theorem status_of_loaded {s : Settings} {d : Disk} {template : String} (m : OutputMode)
    (json : Bool) (ht : loadTemplate d s.template = .ok template) :
    (Exit.ofOutcome json (reportGeneration m (generate s d))).status = ExitStatus.success ∨
      (Exit.ofOutcome json (reportGeneration m (generate s d))).status = ExitStatus.general := by
  rw [Exit.ofOutcome]
  split
  next => exact Or.inl rfl
  next f hf =>
    obtain ⟨e, rfl⟩ := access_of_generate ht (result_reportGeneration_eq_error_iff.mp hf)
    exact Or.inr (Failure.status_access e)

theorem disk_ofOutcome {α : Type} (json : Bool) (o : Outcome α) :
    (Exit.ofOutcome json o).disk = o.disk := by
  rw [Exit.ofOutcome]
  split <;> rfl

theorem effects_spawnPrompts {o : SpawnOptions} (ha : Asks args i o) (h : Host) (json : Bool) :
    Effects args h (.ofOutcome json (spawnPrompts o h)) := by
  cases hs : o.settings h with
  | error f =>
    rw [spawnPrompts_of_error hs]
    exact effects_fail args h json f
  | ok s =>
  cases hdry : o.dryRun.isOn with
  | true =>
    rw [spawnPrompts_of_dryRun hs hdry]
    exact effects_of_success rfl rfl
  | false =>
  have hrun := spawnPrompts_of_settings hs hdry
  cases ht : loadTemplate h.disk s.template with
  | error f =>
    have hnothing : spawnPrompts o h = ⟨{}, h.disk, .error f⟩ := by
      rw [hrun, generate_of_noTemplate ht]
      simp [reportGeneration]
    rw [hnothing]
    exact effects_fail args h json f
  | ok template =>
    have hstatus := status_of_loaded o.mode json ht
    rw [← hrun] at hstatus
    refine
      { refused := fun hrefused => ?_
        changed := fun _ => ⟨i, o, s, template, ?_⟩
        shown := fun j hj hprompt => ?_ }
    · rw [hrefused] at hstatus
      rcases hstatus with hstatus | hstatus <;> cases hstatus
    · exact
        { ha with
          ran := ⟨json, rfl⟩
          real := hdry
          settings := hs
          usable := usable_of_settings hs
          loaded := ht
          disk := by rw [disk_ofOutcome, hrun, disk_reportGeneration]
          status := hstatus }
    · obtain rfl := Except.ok.inj (ha.read.symm.trans hj)
      rcases ha.command with hcommand | ⟨hcommand, _⟩
      · rw [hcommand] at hprompt
        cases hprompt
      · rw [hcommand] at hprompt
        cases hprompt

theorem effects_act (hi : Invocation.ofArgs args = .ok i) (h : Host) :
    Effects args h (act i args h) := by
  rw [act]
  split
  next hcommand =>
    split
    next f _ => exact effects_fail args h _ f
    next o ho => exact effects_spawnPrompts ⟨hi, Or.inl hcommand, ho⟩ h _
  next =>
    split
    next f _ => exact effects_fail args h _ f
    next o _ => exact effects_showPrompt args h _ o
  next hcommand =>
    split
    next => exact effects_fail args h _ _
    next =>
    split
    next v _ _ => exact effects_fail args h _ (unknownCommand v _)
    next hwords =>
      split
      next f _ => exact effects_fail args h _ f
      next o ho => exact effects_spawnPrompts ⟨hi, Or.inr ⟨hcommand, hwords⟩, ho⟩ h _

theorem run_of_ofArgs (hi : Invocation.ofArgs args = .ok i) (hhelp : i.isOn "help" = false)
    (hversion : i.isOn "version" = false) (platform : String) (h : Host) :
    run args platform h =
      i.usageError?.elim (act i args h) fun e =>
        .fail (i.additions.isOn "json") {} h.disk (.usage e) := by
  simp only [run, hi, hhelp, hversion, Bool.false_eq_true, if_false, Bool.false_and]
  cases i.usageError? <;> rfl

end Runs

/-- Only a generation changes the disk, and no refused command line does or prints anything. -/
theorem effects_of_run (args : List String) (platform : String) (h : Host) :
    Effects args h (run args platform h) := by
  rw [run]
  split
  next e _ => exact effects_fail args h _ _
  next i hi =>
    simp only
    split
    next => exact effects_of_success rfl rfl
    next =>
      split
      next => exact effects_of_success rfl rfl
      next =>
        split
        next => exact effects_fail args h _ _
        next => exact effects_act hi h

/-- A run that fails after its first prompt, and one that is refused. -/
example :
    let entries := [("o", .directory [("agent_02.md", .directory [])]), ("t", .file [65])]
    let h : Host := ⟨⟨.directory entries, []⟩,
      { promptTemplate := some "t", promptOutDir := some "o" }⟩
    let failed := run ["--count", "2"] "" h
    let refused := run ["--count", "x"] "" h
    failed.status = 1 ∧ failed.disk.node? ["o", "agent_01.md"] = some (.file [65]) ∧
      refused.status = 2 ∧ refused.disk.node? ["o", "agent_01.md"] = none := by
  decide +kernel

end CommandLine

end AgentPrompts
