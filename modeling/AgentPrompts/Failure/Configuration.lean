/-! # Errors in what a run is asked to do

A template that is not there, a count that is no natural number and settings of a wrong
shape keep a run from starting. The message and the hint are functions of the cause.
-/

namespace AgentPrompts

inductive ConfigurationCode where
  | templateNotFound
  | invalidCount
  | invalidConfig
  deriving DecidableEq, Repr

def ConfigurationCode.text : ConfigurationCode → String
  | templateNotFound => "TEMPLATE_NOT_FOUND"
  | invalidCount => "INVALID_COUNT"
  | invalidConfig => "INVALID_CONFIG"

inductive Setting where
  | count
  | template
  | outDir
  deriving DecidableEq, Repr

def Setting.key : Setting → String
  | count => "count"
  | template => "template"
  | outDir => "outDir"

inductive Issue where
  | notText (setting : Setting) (kind : String)
  | empty (setting : Setting)
  deriving DecidableEq, Repr

def Issue.message : Issue → String
  | notText setting kind => setting.key ++ ": Expected string, received " ++ kind
  | empty setting => setting.key ++ ": String must contain at least 1 character(s)"

inductive ConfigurationError where
  /-- The cause is told by its code, or by its message when it has none. -/
  | templateNotFound (path : String) (cause : Option String)
  | notNatural (flag shown : String)
  | agentBelowOne (shown : String)
  | countSetting (shown : String)
  | settings (issues : List Issue)
  | stated (code : ConfigurationCode) (message : String) (hint : Option String)
  deriving DecidableEq, Repr

namespace ConfigurationError

def code : ConfigurationError → ConfigurationCode
  | templateNotFound .. => .templateNotFound
  | notNatural .. | agentBelowOne _ | countSetting _ => .invalidCount
  | settings _ => .invalidConfig
  | stated code _ _ => code

def message : ConfigurationError → String
  | templateNotFound path _ => "Template not found: " ++ path
  | notNatural flag shown => "Invalid " ++ flag ++ ": " ++ shown
  | agentBelowOne shown => "Invalid --id: " ++ shown
  | countSetting shown => "Invalid count in configuration: " ++ shown
  | settings issues =>
    "Invalid configuration: " ++ String.intercalate ", " (issues.map Issue.message)
  | stated _ message _ => message

def hint? : ConfigurationError → Option String
  | templateNotFound path _ => some ("Ensure " ++ path ++ " exists or pass --template <path>")
  | notNatural flag _ => some (flag ++ " must be a non-negative integer")
  | agentBelowOne _ => some "Agent ids start at 1"
  | countSetting _ => some "count must be a non-negative integer"
  | settings _ => none
  | stated _ _ hint => hint

def cause? : ConfigurationError → Option String
  | templateNotFound _ cause => cause
  | _ => none

def isTemplateNotFound (e : ConfigurationError) : Bool := e.code = .templateNotFound

def name : String := "ConfigurationError"

def text (e : ConfigurationError) : String :=
  if e.message = "" then name else name ++ ": " ++ e.message

end ConfigurationError

end AgentPrompts
