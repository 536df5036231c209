import AgentPrompts.Failure
import AgentPrompts.Number.Numeral

/-! # Counts on the command line -/

namespace AgentPrompts

/-- The count that a flag states: a natural number, or a text that is not blank and reads
as one. -/
def parseCount (flag : String) (v : Value) : Except Failure Number :=
  let x : Number := match v with
    | .number x => x
    | .text s => if (trimBlanks s.toList).isEmpty then .nan else Number.ofText s
    | _ => .nan
  if x.nat?.isSome then .ok x
  else
    match v.asText with
    | .ok shown => .error (.configuration (.notNatural flag shown))
    | .error e => .error (.noText e)

end AgentPrompts
