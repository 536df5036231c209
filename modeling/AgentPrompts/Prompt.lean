import AgentPrompts.Number.Decimal
import AgentPrompts.Path
import AgentPrompts.Text.Quoted

/-! # Prompts

A template is cut at its markers, and the pieces are joined by the agent's number. Each
agent has a prompt file in the output directory and a descriptor on one line, which
holds its prompt as a quoted text.
-/

namespace AgentPrompts

def marker : String := "\x7bN\x7d"

/-- The pieces of a template between its markers, read from left to right. -/
def pieces : List Char → List (List Char)
  | [] => [[]]
  | '{' :: 'N' :: '}' :: cs => [] :: pieces cs
  | c :: cs =>
    match pieces cs with
    | [] => [[c]]
    | p :: ps => (c :: p) :: ps

theorem pieces_ne_nil (cs : List Char) : pieces cs ≠ [] := by
  fun_cases pieces cs <;> simp

theorem intercalate_pieces (cs : List Char) :
    List.intercalate marker.toList (pieces cs) = cs := by
  have hm : marker.toList = ['{', 'N', '}'] := by decide
  rw [hm]
  fun_induction pieces cs with
  | case1 => rfl
  | case2 cs ih =>
    cases h : pieces cs with
    | nil => exact absurd h (pieces_ne_nil cs)
    | cons p ps => simp_all [List.intercalate]
  | case3 c cs hc h ih => exact absurd h (pieces_ne_nil cs)
  | case4 c cs hc p ps h ih => cases ps <;> simp_all [List.intercalate]

def renderPrompt (template : String) (agent : Number) : String :=
  String.ofList (List.intercalate agent.text.toList (pieces template.toList))

def paddedAgent (agent : Number) : String :=
  let digits := agent.text.toList
  String.ofList (List.replicate (2 - digits.length) '0' ++ digits)

def promptFileName (agent : Number) : String := "agent_" ++ paddedAgent agent ++ ".md"

def promptFilePath (outDir : String) (agent : Number) : String :=
  joinPath outDir (promptFileName agent)

def subagentType : String := "general"

def agentCommand : String := "swarm agent"

def describeAgent (agent : Number) : String :=
  "Agent " ++ agent.text ++ " process bead through pipeline"

def formatInvocation (agent : Number) (prompt : String) : String :=
  "Task(description=" ++ Quoted.quote (describeAgent agent) ++
    ", prompt=" ++ Quoted.quote prompt ++
    ", subagent_type=" ++ Quoted.quote subagentType ++
    ", command=" ++ Quoted.quote agentCommand ++ ")"

end AgentPrompts
