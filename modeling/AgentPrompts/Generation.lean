import AgentPrompts.Generation.Plan
import AgentPrompts.Settings.Load

/-! # Generation

A generation reads the template, makes the output directory, writes one prompt file for
each agent and then states the descriptors, each with the prompt as read back from its
file. Each line of output is kept with the disk at the moment when it appears.
-/

namespace AgentPrompts

/-- The text of a template. Anything but a file counts as not found. -/
def loadTemplate (d : Disk) (path : String) : Except Failure String :=
  match d.stat path with
  | .ok (.file content) => .ok (Utf8.decode content)
  | .ok .directory => .error (.configuration (.templateNotFound path none))
  | .error e => .error (.configuration (.templateNotFound path (some e.code)))

/-- A line of output and the disk at the moment when it appears. -/
structure Emission where
  line : String
  disk : Disk

structure Generation where
  emissions : List Emission
  disk : Disk
  result : Except Failure GenerateResult

namespace Generation

/-- The files that could be written, the disk then, and the error that stopped the writing. -/
structure Writing where
  emissions : List Emission
  disk : Disk
  error : Option AccessError

/-- Writes the prompts of agents in turn, up to the first that cannot be written. -/
def writePrompts (template outDir : String) (d : Disk) : List Nat → Writing
  | [] => ⟨[], d, none⟩
  | agent :: agents =>
    let path := promptFilePath outDir (.ofNat agent)
    match d.writeFile path (Utf8.encode (renderPrompt template (.ofNat agent))) with
    | .error e => ⟨[], d, some e⟩
    | .ok d' =>
      let rest := writePrompts template outDir d' agents
      { rest with emissions := ⟨path, d'⟩ :: rest.emissions }

def readInvocations (outDir : String) (d : Disk) : List Nat → List String × Option AccessError
  | [] => ([], none)
  | agent :: agents =>
    match d.readFile (promptFilePath outDir (.ofNat agent)) with
    | .error e => ([], some e)
    | .ok content =>
      let (invocations, e) := readInvocations outDir d agents
      (formatInvocation (.ofNat agent) (Utf8.decode content) :: invocations, e)

/-- Writes the files and states the descriptors, with the template at hand and the output
directory made. -/
def writeAndState (s : Settings) (template : String) (d : Disk) : Generation :=
  let agents := s.count.agents
  let written := writePrompts template s.outDir d agents
  let manifest := ⟨manifestHeader, d⟩ :: written.emissions
  match written.error with
  | some e => ⟨manifest, written.disk, .error (.access e)⟩
  | none =>
    let emit (line : String) : Emission := ⟨line, written.disk⟩
    let (invocations, e) := readInvocations s.outDir written.disk agents
    let emissions := manifest ++ emit "" :: emit invocationsHeader :: invocations.map emit
    match e with
    | some e => ⟨emissions, written.disk, .error (.access e)⟩
    | none =>
      ⟨emissions, written.disk, .ok ⟨s.count, s.template, s.outDir,
        listPromptFiles s.outDir s.count, invocations⟩⟩

end Generation

def generate (s : Settings) (d : Disk) : Generation :=
  match loadTemplate d s.template with
  | .error f => ⟨[], d, .error f⟩
  | .ok template =>
    match d.makeDirectory s.outDir with
    | (d', some e) => ⟨[], d', .error (.access e)⟩
    | (d', none) => Generation.writeAndState s template d'

end AgentPrompts
