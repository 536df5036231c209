import AgentPrompts.Failure.Configuration
import AgentPrompts.Failure.Usage
import AgentPrompts.FileTree.Fault
import AgentPrompts.Json.Printer
import AgentPrompts.Value

/-! # Failures

A failure is kept as its cause, and its message and hint are functions of the cause. The
command line reports every failure as a message, an exit status and perhaps a hint.
-/

namespace AgentPrompts

namespace ExitStatus

def success : Nat := 0

def general : Nat := 1

def configuration : Nat := 2

end ExitStatus

structure CommandError where
  message : String
  status : Nat := ExitStatus.general
  hint : Option String := none
  deriving DecidableEq, Repr

inductive Failure where
  | configuration (error : ConfigurationError)
  | command (error : CommandError)
  | access (error : AccessError)
  | usage (error : UsageError)
  | noText (error : TextError)
  /-- The project directory is given by something other than a text. -/
  | projectNotText (project : Value)
  /-- An error that a caller words itself. -/
  | stated (name message : String)
  /-- A value stands in for an error. -/
  | value (value : Value)

namespace Failure

def isConfiguration : Failure → Bool
  | configuration _ => true
  | _ => false

def received (v : Value) : String :=
  match v with
  | .list _ => "an instance of Array"
  | .record _ | .container _ => "an instance of Object"
  | .number x => "type number (" ++ x.text ++ ")"
  | .bool b => "type boolean (" ++ toString b ++ ")"
  | v => v.kind

def name : Failure → String
  | configuration _ => ConfigurationError.name
  | command _ => "CLIError"
  | access (.fault ..) => "Error"
  | access (.nul _) => "TypeError"
  | usage _ => "Error"
  | noText e => e.name
  | projectNotText _ => "TypeError"
  | stated name _ => name
  | value _ => "Error"

/-- The message of a failure; a value that stands in for an error may have no text. -/
def message? : Failure → Option String
  | configuration e => some e.message
  | command e => some e.message
  | access e => some e.message
  | usage e => some e.message
  | noText e => some e.message
  | projectNotText v =>
    some ("The \"path\" argument must be of type string. Received " ++ received v)
  | stated _ message => some message
  | value v => v.asText.toOption

/-- What is reported for a failure. Errors in what a run is asked to do have a status of
their own and keep their hint. -/
def commandError? : Failure → Option CommandError
  | command e => some e
  | configuration e =>
    some { message := e.message, status := ExitStatus.configuration, hint := e.hint? }
  | f => f.message?.map fun message => { message := message }

end Failure

namespace CommandError

def toJson (e : CommandError) : Json :=
  .record ([("error", .text e.message), ("code", Json.ofNat e.status)] ++
    match e.hint with
    | some hint => [("hint", .text hint)]
    | none => [])

/-- The lines of the report: one JSON document, or the message and a hint that is not empty. -/
def lines (json : Bool) (e : CommandError) : List String :=
  if json then [e.toJson.compact]
  else
    ("Error: " ++ e.message) ::
      match e.hint with
      | none => []
      | some hint => if hint = "" then [] else ["Hint: " ++ hint]

end CommandError

end AgentPrompts
