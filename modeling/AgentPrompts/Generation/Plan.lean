import AgentPrompts.Prompt
import AgentPrompts.Settings

/-! # Plans and results of generations

A plan says what a generation would do and touches nothing. Both a plan and the result of
a generation list the prompt files in the order of the agents.
-/

namespace AgentPrompts

structure GenerateResult where
  count : Number
  template : String
  outDir : String
  files : List String
  invocations : List String
  deriving DecidableEq, Repr

inductive PlanAction where
  | readTemplate
  | writePrompts
  deriving DecidableEq, Repr

structure PlanStep where
  step : Number
  action : PlanAction
  target : String
  deriving DecidableEq, Repr

structure GenerationPlan where
  count : Number
  template : String
  outDir : String
  steps : List PlanStep
  files : List String
  deriving DecidableEq, Repr

def PlanAction.text : PlanAction → String
  | readTemplate => "read_template"
  | writePrompts => "write_prompts"

namespace GenerateResult

def toJson (r : GenerateResult) : Json :=
  .record [("count", .number r.count), ("template", .text r.template), ("outDir", .text r.outDir),
    ("files", .texts r.files), ("invocations", .texts r.invocations)]

end GenerateResult

namespace GenerationPlan

def toJson (p : GenerationPlan) : Json :=
  let step (s : PlanStep) : Json :=
    .record [("step", .number s.step), ("action", .text s.action.text), ("target", .text s.target)]
  .record [("count", .number p.count), ("template", .text p.template), ("outDir", .text p.outDir),
    ("steps", .list (p.steps.map step)), ("files", .texts p.files)]

end GenerationPlan

def manifestHeader : String := "# Generated prompts"

def invocationsHeader : String := "# Task tool calls"

def listPromptFiles (outDir : String) (count : Number) : List String :=
  count.agents.map fun agent => promptFilePath outDir (.ofNat agent)

def planGeneration (s : Settings) : GenerationPlan where
  count := s.count
  template := s.template
  outDir := s.outDir
  steps := [⟨.ofNat 1, .readTemplate, s.template⟩, ⟨.ofNat 2, .writePrompts, s.outDir⟩]
  files := listPromptFiles s.outDir s.count

end AgentPrompts
