import Mathlib.Data.List.Basic
import AgentPrompts.Proofs.Json.Literal
import AgentPrompts.Proofs.Number.Reading
import AgentPrompts.Prompt

/-! # Descriptors read back

A descriptor is read from left to right. Each quoted text ends where it was ended, so the
agent and the prompt are found again, whatever the prompt holds.
-/

namespace AgentPrompts

namespace Descriptor

def quoted? (cs : List Char) : Option (String × List Char) :=
  match Json.Token.read? ⟨.nothing, []⟩ cs with
  | some (⟨.nothing, [.scalar (.text s)]⟩, rest) => some (s, rest)
  | _ => none

def agent? (description : String) : Option Number := do
  let cs ← description.toList.dropPrefix? "Agent ".toList
  let digits ← cs.dropSuffix? " process bead through pipeline".toList
  pure (.ofText (String.ofList digits))

/-- The agent and the prompt of a descriptor. -/
def decode? (line : String) : Option (Number × String) := do
  let cs ← line.toList.dropPrefix? "Task(description=".toList
  let (description, cs) ← quoted? cs
  let cs ← cs.dropPrefix? ", prompt=".toList
  let (prompt, _) ← quoted? cs
  let agent ← agent? description
  pure (agent, prompt)

def ending : List Char :=
  ", subagent_type=".toList ++ ((Quoted.quote subagentType).toList ++
    (", command=".toList ++ ((Quoted.quote agentCommand).toList ++ ")".toList)))

theorem toList_formatInvocation (a : Number) (prompt : String) :
    (formatInvocation a prompt).toList =
      "Task(description=".toList ++ ((Quoted.quote (describeAgent a)).toList ++
        (", prompt=".toList ++ ((Quoted.quote prompt).toList ++ ending))) := by
  unfold formatInvocation ending
  simp only [String.toList_append, List.append_assoc]

theorem quoted?_quote (s : String) (rest : List Char) :
    quoted? ((Quoted.quote s).toList ++ rest) = some (s, rest) := by
  rw [Quoted.quote, String.toList_ofList, quoted?, Json.Token.read?_encode, String.ofList_toList]

theorem agent?_describeAgent {a : Number} (ha : a.IsBinary64) :
    agent? (describeAgent a) = some a := by
  have htext : (describeAgent a).toList =
      "Agent ".toList ++ (a.text.toList ++ " process bead through pipeline".toList) := by
    simp [describeAgent]
  have hsuffix : (a.text.toList ++ " process bead through pipeline".toList).dropSuffix?
      " process bead through pipeline".toList = some a.text.toList :=
    List.dropSuffix?_eq_some_iff.mpr ⟨_, rfl, BEq.rfl⟩
  rw [agent?, htext, List.dropPrefix?_append_of_beq _ BEq.rfl]
  simp only [Option.bind_eq_bind, Option.bind_some, hsuffix, String.ofList_toList,
    Number.ofText_text ha]
  rfl

/-- A descriptor gives back the agent and the prompt. -/
theorem decode?_formatInvocation {a : Number} (ha : a.IsBinary64) (prompt : String) :
    decode? (formatInvocation a prompt) = some (a, prompt) := by
  rw [decode?, toList_formatInvocation, List.dropPrefix?_append_of_beq _ BEq.rfl]
  simp only [Option.bind_eq_bind, Option.bind_some, quoted?_quote,
    List.dropPrefix?_append_of_beq _ BEq.rfl, agent?_describeAgent ha]
  rfl

theorem formatInvocation_inj {a b : Number} (ha : a.IsBinary64) (hb : b.IsBinary64)
    {p q : String} : formatInvocation a p = formatInvocation b q ↔ a = b ∧ p = q := by
  constructor
  · intro h
    have hsame := congrArg decode? h
    rw [decode?_formatInvocation ha, decode?_formatInvocation hb] at hsame
    exact Prod.mk.inj (Option.some.inj hsame)
  · rintro ⟨rfl, rfl⟩
    rfl

theorem ge_of_mem_quote (s : String) : ∀ c ∈ (Quoted.quote s).toList, 0x20 ≤ c.toNat := by
  intro c hc
  rw [Quoted.quote, String.toList_ofList] at hc
  exact Json.Token.ge_of_mem_encode hc

theorem ge_of_all {cs : List Char} (h : (cs.all fun c => decide (0x20 ≤ c.toNat)) = true) :
    ∀ c ∈ cs, 0x20 ≤ c.toNat := by
  simpa using h

theorem ge_of_mem_formatInvocation (a : Number) (prompt : String) :
    ∀ c ∈ (formatInvocation a prompt).toList, 0x20 ≤ c.toNat := by
  rw [toList_formatInvocation]
  refine List.forall_mem_append.mpr ⟨ge_of_all (by decide), ?_⟩
  refine List.forall_mem_append.mpr ⟨ge_of_mem_quote _, ?_⟩
  refine List.forall_mem_append.mpr ⟨ge_of_all (by decide), ?_⟩
  exact List.forall_mem_append.mpr ⟨ge_of_mem_quote _, ge_of_all (by decide)⟩

end Descriptor

end AgentPrompts
