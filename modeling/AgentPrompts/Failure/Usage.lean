import AgentPrompts.Datum.Assignment
import AgentPrompts.Value

/-! # Errors in the words of a command line -/

namespace AgentPrompts

inductive UsageError where
  | unknownOption (name : String)
  | missingValue (option : String)
  | assignment (error : AssignmentError)
  /-- A flag of this name has other names that are no list. -/
  | reservedName
  | wordsClosed
  | wordsUnreadable
  /-- Only flags with other names are known, and what should refuse the others does not. -/
  | notRefused
  /-- There is a default of a kind for which no flags are listed. -/
  | defaultKind
  | noText (error : TextError)
  deriving DecidableEq, Repr

def UsageError.message : UsageError → String
  | unknownOption name =>
    "Unknown option `" ++ (if 1 < units16 name then "--" else "-") ++ name ++ "`"
  | missingValue option => "option `" ++ option ++ "` value is missing"
  | assignment error => error.message
  | reservedName => "arr.shift is not a function"
  | wordsClosed => "out._.push is not a function"
  | wordsUnreadable => "args.slice is not a function"
  | notRefused => "opts.unknown is not a function"
  | defaultKind => "opts[name].push is not a function"
  | noText error => error.message

end AgentPrompts
