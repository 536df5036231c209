import AgentPrompts.Console
import AgentPrompts.Settings.Count

/-! # Commands

`spawnPrompts` generates, or plans when asked for a dry run; `showPrompt` renders the
prompt of one agent. Both take options of any shape, resolve the settings and report in
the output mode that the options ask for.
-/

namespace AgentPrompts

structure Host where
  disk : Disk
  environment : Environment

structure Outcome (α : Type) where
  console : Console
  disk : Disk
  result : Except Failure α

structure SpawnOptions where
  count : Value := .absent
  template : Value := .absent
  outDir : Value := .absent
  project : Value := .absent
  dryRun : Value := .absent
  json : Value := .absent
  quiet : Value := .absent

structure PromptOptions where
  id : Value := .absent
  template : Value := .absent
  project : Value := .absent
  json : Value := .absent
  quiet : Value := .absent

inductive SpawnReport where
  | generated (result : GenerateResult)
  | planned (plan : GenerationPlan)

structure PromptReport where
  agentId : Number
  prompt : String
  deriving DecidableEq, Repr

def SpawnOptions.mode (o : SpawnOptions) : OutputMode := ⟨o.json.isOn, o.quiet.isOn⟩

def PromptOptions.mode (o : PromptOptions) : OutputMode := ⟨o.json.isOn, o.quiet.isOn⟩

def SpawnReport.toJson : SpawnReport → Json
  | generated r => r.toJson
  | planned p => p.toJson

def PromptReport.toJson (r : PromptReport) : Json :=
  .record [("agentId", .number r.agentId), ("prompt", .text r.prompt)]

/-- The project directory that an option names; without a value it is the working directory. -/
def projectOf : Value → Except Failure (Option String)
  | .absent | .null => .ok none
  | .text s => .ok (some s)
  | v => .error (.projectNotText v)

def SpawnOptions.settings (o : SpawnOptions) (h : Host) : Except Failure Settings := do
  let count ← if o.count.isAbsent then pure .absent else Value.number <$> parseCount "--count" o.count
  let project ← projectOf o.project
  Settings.load h.disk h.environment project ⟨count, o.template, o.outDir⟩

def remarks (m : OutputMode) (r : GenerateResult) : Console :=
  (if r.count = .zero then m.warn "count is 0, no prompts were generated" else {}) ++
    m.info ("Generated " ++ r.count.text ++ " prompts in " ++ r.outDir) ++
    m.info "Launch each in parallel with your Task tool runner."

/-- The lines of a generation appear as they are emitted; in JSON mode the result is
written once at the end. -/
def reportGeneration (m : OutputMode) (g : Generation) : Outcome SpawnReport :=
  let emitted : Console := ⟨if m.isChatty then g.emissions.map Emission.line else [], []⟩
  match g.result with
  | .error f => ⟨emitted, g.disk, .error f⟩
  | .ok r =>
    let result := if m.json then m.output r.toJson (formatGenerateResult r) else {}
    ⟨emitted ++ result ++ remarks m r, g.disk, .ok (.generated r)⟩

def spawnPrompts (o : SpawnOptions) (h : Host) : Outcome SpawnReport :=
  match o.settings h with
  | .error f => ⟨{}, h.disk, .error f⟩
  | .ok settings =>
    if o.dryRun.isOn then
      let plan := planGeneration settings
      ⟨o.mode.output plan.toJson (formatPlan plan), h.disk, .ok (.planned plan)⟩
    else reportGeneration o.mode (generate settings h.disk)

/-- The agent that the options ask for, by default the first. -/
def PromptOptions.agent (o : PromptOptions) : Except Failure Number := do
  let agent ← if o.id.isAbsent then pure (.ofNat 1) else parseCount "--id" o.id
  if agent = .zero then throw (.configuration (.agentBelowOne agent.text)) else pure agent

def PromptOptions.report (o : PromptOptions) (h : Host) : Except Failure PromptReport := do
  let agent ← o.agent
  let project ← projectOf o.project
  let settings ← Settings.load h.disk h.environment project { template := o.template }
  let template ← loadTemplate h.disk settings.template
  pure ⟨agent, renderPrompt template agent⟩

def showPrompt (o : PromptOptions) (h : Host) : Outcome PromptReport :=
  match o.report h with
  | .error f => ⟨{}, h.disk, .error f⟩
  | .ok r => ⟨o.mode.output r.toJson r.prompt, h.disk, .ok r⟩

end AgentPrompts
