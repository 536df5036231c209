/-! # Commands and their options

Generating has a name and is also what happens without one; showing a prompt has a name.
The help texts are laid out from the tables of commands and options.
-/

namespace AgentPrompts.CommandLine

/-- An option as a command declares it. One with an argument takes a value. -/
structure OptionUsage where
  names : List String
  shown : String
  takesValue : Bool
  description : String
  deriving DecidableEq, Repr

namespace OptionUsage

def count : OptionUsage :=
  ⟨["count"], "--count <n>", true, "Number of agents to generate (default: 12)"⟩

def template : OptionUsage :=
  ⟨["template"], "--template <path>", true,
    "Template with \x7bN\x7d placeholder (default: .agents/agent_prompt.md)"⟩

def outDir : OptionUsage :=
  ⟨["outDir"], "--out-dir <path>", true,
    "Directory for rendered prompt files (default: .agents/generated)"⟩

def project : OptionUsage :=
  ⟨["project"], "--project <path>", true,
    "Directory holding .swarmrc / package.json (default: current directory)"⟩

def id : OptionUsage := ⟨["id"], "--id <n>", true, "Agent number (default: 1)"⟩

def dryRun : OptionUsage :=
  ⟨["dryRun"], "--dry-run", false, "Show what would be written without writing"⟩

def json : OptionUsage := ⟨["json"], "--json", false, "Output as JSON"⟩

def quiet : OptionUsage := ⟨["quiet"], "--quiet", false, "Suppress output"⟩

def help : OptionUsage := ⟨["h", "help"], "-h, --help", false, "Display this message"⟩

def version : OptionUsage := ⟨["v", "version"], "-v, --version", false, "Display version number"⟩

end OptionUsage

def globalOptions : List OptionUsage := [.help, .version]

inductive Command where
  | spawnPrompts
  | unnamed
  | prompt
  deriving DecidableEq, Repr

namespace Command

/-- The commands in the order in which they are tried. -/
def all : List Command := [spawnPrompts, unnamed, prompt]

def word : Command → String
  | spawnPrompts => "spawn-prompts"
  | unnamed => ""
  | prompt => "prompt"

def shown : Command → String
  | unnamed => "[...command]"
  | c => c.word

def description : Command → String
  | spawnPrompts => "Generate per-agent prompt files and Task tool invocations"
  | unnamed => "Same as spawn-prompts"
  | prompt => "Print the rendered prompt for one agent"

def options : Command → List OptionUsage
  | spawnPrompts | unnamed =>
    [.count, .template, .outDir, .project, .dryRun, .json, .quiet]
  | prompt => [.id, .template, .project, .json, .quiet]

def allOptions (c : Command) : List OptionUsage := globalOptions ++ c.options

end Command

def programName : String := "swarm-prompts"

def programVersion : String := programName ++ "/0.1.0"

def versionText (platform : String) : String := programVersion ++ " " ++ platform

/-- Texts padded to one width, each followed by two spaces and its description. -/
def columns (rows : List (String × String)) : List String :=
  let width := (rows.map (·.1.length)).foldl max 0
  rows.map fun r =>
    "  " ++ r.1 ++ String.ofList (List.replicate (width - r.1.length) ' ') ++ "  " ++ r.2

def helpSection (title : String) (lines : List String) : String :=
  String.intercalate "\n" ((title ++ ":") :: lines)

/-- The help text of a command. Without a name it also lists the commands and the option
that shows the version. -/
def helpText (c : Command) : String :=
  let invocation (rest : String) : String := "  $ " ++ programName ++ rest
  let commands :=
    [helpSection "Commands" (columns (Command.all.map fun c => (c.shown, c.description))),
      helpSection "For more info, run any command with the `--help` flag"
        (Command.all.map fun c =>
          invocation ((if c.word = "" then "" else " " ++ c.word) ++ " --help"))]
  let options := c.options ++ if c = .unnamed then globalOptions else [.help]
  String.intercalate "\n\n"
    ([programVersion, helpSection "Usage" [invocation (" " ++ c.shown)]] ++
      (if c = .unnamed then commands else []) ++
      [helpSection "Options" (columns (options.map fun o => (o.shown, o.description ++ " ")))])

end AgentPrompts.CommandLine
