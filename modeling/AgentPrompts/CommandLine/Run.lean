import AgentPrompts.CommandLine.Invocation

/-! # Running a command line

Help and version come before the checks, the checks before the command. What the command meets
is reported as JSON when its options ask for that. What is met before the options are consulted is
reported in plain text, unless a member for JSON was added to all records.
-/

namespace AgentPrompts.CommandLine

structure Exit where
  console : Console
  status : Nat
  disk : Disk

def unknownCommand (word : Datum) (additions : Additions) : Failure :=
  match word.asText additions with
  | .ok shown => .command
    { message := "Unknown command: " ++ shown
      hint := some "Run swarm-prompts --help to list commands" }
  | .error e => .noText e

namespace Exit

def fail (json : Bool) (console : Console) (disk : Disk) (f : Failure) : Exit :=
  let e := f.commandError?.getD { message := "" }
  ⟨console ++ { err := e.lines json }, e.status, disk⟩

def ofOutcome {α : Type} (json : Bool) (o : Outcome α) : Exit :=
  match o.result with
  | .ok _ => ⟨o.console, ExitStatus.success, o.disk⟩
  | .error f => fail json o.console o.disk f

end Exit

def act (i : Invocation) (args : List String) (h : Host) : Exit :=
  let json := i.isOn "json"
  let early := i.additions.isOn "json"
  match i.command with
  | .spawnPrompts =>
    match i.spawnOptions args with
    | .error f => .fail early {} h.disk f
    | .ok o => .ofOutcome json (spawnPrompts o h)
  | .prompt =>
    match i.promptOptions args with
    | .error f => .fail early {} h.disk f
    | .ok o => .ofOutcome json (showPrompt o h)
  | .unnamed =>
    if ¬ i.words.isList then .fail early {} h.disk (.usage .wordsUnreadable)
    else
      match i.words.items with
      | v :: _ => .fail json {} h.disk (unknownCommand v i.additions)
      | [] =>
        match i.spawnOptions args with
        | .error f => .fail json {} h.disk f
        | .ok o => .ofOutcome json (spawnPrompts o h)

/-- Runs the program with the words after its name. -/
def run (args : List String) (platform : String) (h : Host) : Exit :=
  match Invocation.ofArgs args with
  | .error e => .fail (e.additions.isOn "json") {} h.disk (.usage e.error)
  | .ok i =>
    let version := versionText platform
    let isUnnamed := i.command = .unnamed ∧ (i.additions.inherited "matchedCommandName").isAbsent
    if i.isOn "help" then
      ⟨{ out := helpText i.command :: if i.isOn "version" then [version] else [] },
        ExitStatus.success, h.disk⟩
    else if i.isOn "version" && isUnnamed then
      ⟨{ out := [version] }, ExitStatus.success, h.disk⟩
    else
      match i.usageError? with
      | some e => .fail (i.additions.isOn "json") {} h.disk (.usage e)
      | none => act i args h

end AgentPrompts.CommandLine
