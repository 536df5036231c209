import AgentPrompts.Generation

/-! # Console output

Results go to standard output, remarks to standard error, each as a line. In JSON mode
standard output holds one document and nothing else; in quiet mode nothing is written.
-/

namespace AgentPrompts

structure Console where
  out : List String := []
  err : List String := []
  deriving DecidableEq, Repr

namespace Console

instance : Append Console := ⟨fun a b => ⟨a.out ++ b.out, a.err ++ b.err⟩⟩

def text (lines : List String) : String := String.join (lines.map (· ++ "\n"))

def stdout (c : Console) : String := text c.out

def stderr (c : Console) : String := text c.err

end Console

structure OutputMode where
  json : Bool := false
  quiet : Bool := false
  deriving DecidableEq, Repr

namespace OutputMode

/-- A result: as an indented document in JSON mode, else in its plain form. -/
def output (m : OutputMode) (document : Json) (plain : String) : Console :=
  if m.quiet then {}
  else if m.json then { out := [document.pretty] }
  else { out := [plain] }

def isChatty (m : OutputMode) : Bool := !m.quiet && !m.json

def print (m : OutputMode) (line : String) : Console :=
  if m.isChatty then { out := [line] } else {}

def info (m : OutputMode) (message : String) : Console :=
  if m.isChatty then { err := [message] } else {}

def warn (m : OutputMode) (message : String) : Console := m.info ("Warning: " ++ message)

end OutputMode

def formatPlan (p : GenerationPlan) : String :=
  let step (s : PlanStep) : String := "  " ++ s.step.text ++ ". " ++ s.action.text ++ " -> " ++ s.target
  let files := match p.files with
    | [] => ["Would write 0 prompts."]
    | files => ("Would write " ++ toString files.length ++ " prompts:") :: files.map ("  " ++ ·)
  String.intercalate "\n" ("Dry run (nothing written):" :: p.steps.map step ++ "" :: files)

/-- The manifest of the files, an empty line, and the descriptors. -/
def formatGenerateResult (r : GenerateResult) : String :=
  String.intercalate "\n" (manifestHeader :: r.files ++ "" :: invocationsHeader :: r.invocations)

end AgentPrompts
