import AgentPrompts.Failure

/-! # Path options as typed

A path that looks like a numeral has become a number among the options. Its text is found
again among the words of the command line.
-/

namespace AgentPrompts.CommandLine

/-- The text that follows a flag, or its equals sign, for the last time before a lone `--`.
A flag without a next word does not count. -/
def lastFlagText (flag : String) : List String → Option String
  | [] => none
  | arg :: rest =>
    if arg = "--" then none
    else
      let assignment := flag.toList ++ ['=']
      let here :=
        if arg = flag then rest.head?
        else if assignment.isPrefixOf arg.toList then
          some (String.ofList (arg.toList.drop assignment.length))
        else none
      (lastFlagText flag rest).or here

/-- The path that an option gives, as it was typed: a value that is not a text is looked up
among the words of the command line. -/
def pathOption (parsed : Value) (args : List String) (flag : String) : Except Failure Value :=
  match parsed with
  | .absent => .ok .absent
  | .text s => .ok (.text s)
  | v =>
    match lastFlagText flag args with
    | some s => .ok (.text s)
    | none =>
      match v.asText with
      | .ok s => .ok (.text s)
      | .error e => .error (.noText e)

end AgentPrompts.CommandLine
