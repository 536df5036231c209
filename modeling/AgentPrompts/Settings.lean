import AgentPrompts.Number.Numeral
import AgentPrompts.Failure

/-! # Settings and their sources

A run needs a count, a template and an output directory. A source gives some of them, in
any shape; the environment gives a count only by a text that reads as a natural number.
-/

namespace AgentPrompts

structure Settings where
  count : Number
  template : String
  outDir : String
  deriving DecidableEq, Repr

namespace Settings

def defaults : Settings := ⟨.ofNat 12, ".agents/agent_prompt.md", ".agents/generated"⟩

def toJson (s : Settings) : Json :=
  .record [("count", .number s.count), ("template", .text s.template), ("outDir", .text s.outDir)]

end Settings

structure Source where
  count : Value := .absent
  template : Value := .absent
  outDir : Value := .absent

structure Environment where
  agentCount : Option String := none
  promptTemplate : Option String := none
  promptOutDir : Option String := none
  deriving DecidableEq, Repr

namespace Source

def get (s : Source) : Setting → Value
  | .count => s.count
  | .template => s.template
  | .outDir => s.outDir

def ofRecord (v : Value) : Source :=
  ⟨v.member Setting.count.key, v.member Setting.template.key, v.member Setting.outDir.key⟩

def ofSettings (s : Settings) : Source := ⟨.number s.count, .text s.template, .text s.outDir⟩

def ofVariable : Option String → Value
  | some s => if s = "" then .absent else .text s
  | none => .absent

/-- The count that a variable states: a natural number in a text that is not blank. Any
other text counts as not set. -/
def countOfVariable : Option String → Value
  | some s =>
    if (trimBlanks s.toList).isEmpty then .absent
    else
      let x := Number.ofText s
      if x.nat?.isSome then .number x else .absent
  | none => .absent

def ofEnvironment (env : Environment) : Source :=
  ⟨countOfVariable env.agentCount, ofVariable env.promptTemplate, ofVariable env.promptOutDir⟩

/-- What the first source gives, and what the second gives where the first gives nothing. -/
def orElse (s t : Source) : Source :=
  let first (v w : Value) : Value := if v.isAbsent then w else v
  ⟨first s.count t.count, first s.template t.template, first s.outDir t.outDir⟩

theorem get_orElse (s t : Source) (x : Setting) :
    (s.orElse t).get x = if (s.get x).isAbsent then t.get x else s.get x := by
  cases x <;> rfl

end Source

end AgentPrompts
