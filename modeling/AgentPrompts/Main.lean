import AgentPrompts.CommandLine.Run

/-! # The program

The program looks at the paths on which its run depends, runs on what it saw, and carries
out the changes that the run made.
-/

namespace AgentPrompts.Program

def absoluteText (l : Location) : String := "/" ++ String.intercalate "/" l

def directoryCode : UInt32 := 21

def observe (l : Location) : IO (Option Entry) := do
  try
    let bytes ← IO.FS.readBinFile (absoluteText l)
    return some (.file bytes.toList)
  catch
    | .inappropriateType _ code _ =>
      return if code = directoryCode then some (.directory []) else none
    | _ => return none

/-- Adds to a disk what stands on the way of a path. -/
def survey (d : Disk) (path : String) : IO Disk := do
  let mut disk := d
  let mut here := d.start path
  for part in pathParts path do
    if part = ".." then here := here.dropLast
    else if part ≠ "" ∧ part ≠ "." then
      here := here ++ [part]
      if (disk.node? here).isNone then
        if let some e ← observe here then disk := disk.put here e
  return disk

def pathsOf (settings : Except Failure Settings) : List String :=
  match settings with
  | .error _ => []
  | .ok s => s.template :: s.outDir :: listPromptFiles s.outDir s.count

def configurationPaths (project : Value) : List String :=
  match projectOf project with
  | .error _ => []
  | .ok p => [Settings.projectFile p ".swarmrc", Settings.projectFile p "package.json"]

/-- The paths on which the run of a command line depends, as far as the settings are known. -/
def pathsFor (args : List String) (h : Host) : List String :=
  match CommandLine.Invocation.ofArgs args with
  | .error _ => []
  | .ok i =>
    match i.command, i.spawnOptions args, i.promptOptions args with
    | .prompt, _, .ok o =>
      configurationPaths o.project ++ pathsOf (SpawnOptions.settings
        { template := o.template, project := o.project } h)
    | _, .ok o, _ => configurationPaths o.project ++ pathsOf (o.settings h)
    | _, _, _ => []

/-- Carries out what differs between two states, parents first. -/
def carryOut (before after : Disk) : IO Unit := do
  for (l, n) in Entry.nodes [] after.root do
    if before.node? l ≠ some n then
      match n with
      | .directory => IO.FS.createDir (absoluteText l)
      | .file content => IO.FS.writeBinFile (absoluteText l) ⟨content.toArray⟩

def surveyAll (d : Disk) (paths : List String) : IO Disk := paths.foldlM survey d

def run (args : List String) : IO UInt32 := do
  let environment : Environment :=
    { agentCount := ← IO.getEnv "SWARM_AGENT_COUNT"
      promptTemplate := ← IO.getEnv "SWARM_PROMPT_TEMPLATE"
      promptOutDir := ← IO.getEnv "SWARM_PROMPT_OUT_DIR" }
  let here := (pathParts (toString (← IO.currentDir))).filter (· ≠ "")
  let empty := (Disk.mk (.directory []) here).put here (.directory [])
  let configured ← surveyAll empty (pathsFor args ⟨empty, environment⟩)
  let disk ← surveyAll configured (pathsFor args ⟨configured, environment⟩)
  let ended := CommandLine.run args "native" ⟨disk, environment⟩
  carryOut disk ended.disk
  IO.print ended.console.stdout
  IO.eprint ended.console.stderr
  return ended.status.toUInt32

end AgentPrompts.Program

def main (args : List String) : IO UInt32 := AgentPrompts.Program.run args
