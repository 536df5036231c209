import AgentPrompts.Command
import AgentPrompts.CommandLine.Options
import AgentPrompts.CommandLine.PathOption

/-! # Invocations

A command line is read with the switches of each command in turn, and the last command
whose word comes first among the plain words is chosen, or else the unnamed one. Its
options are checked and become the options of the command.
-/

namespace AgentPrompts.CommandLine

structure Invocation where
  command : Command
  /-- The plain words after the one that chose the command. -/
  words : Datum
  options : Datum
  additions : Additions

def firstWord (words : Datum) (additions : Additions) : Datum :=
  words.get additions (Datum.indexName 0)

def afterFirst (words : Datum) : Datum :=
  if words.isList then .ofItems (words.items.drop 1) else words

def isText (s : String) : Datum → Bool
  | .text t => t = s
  | _ => false

/-- Reads a command line once for each command, in order. What one reading adds to the
shared objects the next one finds. -/
def readings (args : List String) : List Command → Additions →
    Except ReadingError (List (Command × Parsed) × Additions)
  | [], additions => .ok ([], additions)
  | c :: cs, additions => do
    let parsed ← Parsed.ofArgs c args additions
    let (rest, additions) ← readings args cs parsed.additions
    pure ((c, parsed) :: rest, additions)

namespace Invocation

def ofArgs (args : List String) : Except ReadingError Invocation := do
  let (rs, additions) ← readings args Command.all []
  let isNamed (r : Command × Parsed) : Bool :=
    isText r.1.word (firstWord r.2.words r.2.additions)
  match (rs.filter isNamed).getLast? with
  | some (c, p) => pure ⟨c, afterFirst p.words, p.options, additions⟩
  | none =>
    let p ← Parsed.ofArgs .unnamed args additions
    pure ⟨.unnamed, p.words, p.options, p.additions⟩

def option (i : Invocation) (name : String) : Datum := i.options.get i.additions name

def value (i : Invocation) (name : String) : Value := (i.option name).toValue i.additions

def isOn (i : Invocation) (name : String) : Bool := (i.option name).isOn

def optionNames (i : Invocation) : List String :=
  match i.options with
  | .made _ ms _ => (Members.listed ms).map (·.1)
  | _ => []

/-- The first fault in the options: an unknown name, or a value that is missing. -/
def usageError? (i : Invocation) : Option UsageError :=
  let known := i.command.allOptions.flatMap (·.names)
  let isUnknown (name : String) : Bool :=
    !i.additions.isOn "allowUnknownOptions" && name ≠ "--" && !known.contains name
  let missing (o : OptionUsage) : Option UsageError :=
    match i.option (o.names.getLastD "") with
    | .bool _ =>
      if o.takesValue || i.additions.isOn "required" then some (.missingValue o.shown) else none
    | _ => none
  match i.optionNames.find? isUnknown with
  | some name => some (.unknownOption name)
  | none => i.command.allOptions.findSome? missing

def spawnOptions (i : Invocation) (args : List String) : Except Failure SpawnOptions := do
  let template ← pathOption (i.value "template") args "--template"
  let outDir ← pathOption (i.value "outDir") args "--out-dir"
  let project ← pathOption (i.value "project") args "--project"
  pure {
    count := i.value "count"
    template := template
    outDir := outDir
    project := project
    dryRun := i.value "dryRun"
    json := i.value "json"
    quiet := i.value "quiet" }

def promptOptions (i : Invocation) (args : List String) : Except Failure PromptOptions := do
  let template ← pathOption (i.value "template") args "--template"
  let project ← pathOption (i.value "project") args "--project"
  pure {
    id := i.value "id"
    template := template
    project := project
    json := i.value "json"
    quiet := i.value "quiet" }

end Invocation

end AgentPrompts.CommandLine
