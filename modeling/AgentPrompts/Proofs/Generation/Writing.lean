import AgentPrompts.Proofs.Generation.Target
import AgentPrompts.Proofs.Number.Agents

/-! # Writing prompts

The prompts of agents are written one after the other up to the first that is blocked.
After each file the disk differs from the one at the start in the files written so far
and in nothing else, and what was written is read back as it was rendered.
-/

namespace AgentPrompts.Generation

open Disk Number

variable {d d' : Disk} {template outDir : String} {a : Nat} {agents : List Nat}

def putPrompt (template outDir : String) (d : Disk) (agent : Nat) : Disk :=
  d.put (place d outDir agent) (.file (promptBytes template agent))

def putPrompts (template outDir : String) (d : Disk) (agents : List Nat) : Disk :=
  agents.foldl (putPrompt template outDir) d

def promptEmissions (template outDir : String) (d : Disk) : List Nat → List Emission
  | [] => []
  | agent :: agents =>
    let d' := putPrompt template outDir d agent
    ⟨promptFilePath outDir (.ofNat agent), d'⟩ :: promptEmissions template outDir d' agents

section Putting

variable (template) (h : d.Leads outDir)
include h

theorem node?_putPrompt (hb : blocked? d outDir a = none) (l : Location) :
    (putPrompt template outDir d a).node? l =
      if l = place d outDir a then some (.file (promptBytes template a)) else d.node? l :=
  node?_put h.node?_target (blocked?_eq_none_iff.mp hb).2 rfl l

theorem sameDirectories_putPrompt (hb : blocked? d outDir a = none) :
    SameDirectories d (putPrompt template outDir d a) where
  workingDirectory := rfl
  directory l := by
    rw [node?_putPrompt template h hb]
    split
    next hl =>
      subst hl
      simpa using (blocked?_eq_none_iff.mp hb).2
    next => exact Iff.rfl

variable (hb : ∀ a ∈ agents, blocked? d outDir a = none)
include hb

theorem sameDirectories_putPrompts : SameDirectories d (putPrompts template outDir d agents) := by
  induction agents generalizing d with
  | nil => exact SameDirectories.refl d
  | cons a agents ih =>
    obtain ⟨ha, hrest⟩ := List.forall_mem_cons.mp hb
    have hs := sameDirectories_putPrompt template h ha
    exact hs.trans (ih (hs.leads h) fun b hm => hs.blocked?.trans (hrest b hm))

theorem node?_putPrompts_of_ne {l : Location} (hl : ∀ a ∈ agents, l ≠ place d outDir a) :
    (putPrompts template outDir d agents).node? l = d.node? l := by
  induction agents generalizing d with
  | nil => rfl
  | cons a agents ih =>
    obtain ⟨ha, hrest⟩ := List.forall_mem_cons.mp hb
    obtain ⟨hla, hlrest⟩ := List.forall_mem_cons.mp hl
    have hs := sameDirectories_putPrompt template h ha
    have hgo := ih (hs.leads h) (fun b hm => hs.blocked?.trans (hrest b hm))
      (fun b hm => hs.place ▸ hlrest b hm)
    exact hgo.trans (by rw [node?_putPrompt template h ha, if_neg hla])

theorem node?_putPrompts_of_mem (hx : ∀ a ∈ agents, a < exactBound) (ha : a ∈ agents) :
    (putPrompts template outDir d agents).node? (place d outDir a) =
      some (.file (promptBytes template a)) := by
  induction agents generalizing d with
  | nil => cases ha
  | cons b agents ih =>
    obtain ⟨hbb, hrest⟩ := List.forall_mem_cons.mp hb
    obtain ⟨hxb, hxrest⟩ := List.forall_mem_cons.mp hx
    have hs := sameDirectories_putPrompt template h hbb
    have hrest' : ∀ c ∈ agents, blocked? (putPrompt template outDir d b) outDir c = none :=
      fun c hm => hs.blocked?.trans (hrest c hm)
    by_cases hm : a ∈ agents
    · have hgo := ih (hs.leads h) hrest' hxrest hm
      rwa [hs.place] at hgo
    · obtain rfl : a = b := (List.mem_cons.mp ha).resolve_right hm
      -- no later agent has the same place, so the file stays as it was written
      have hne : ∀ c ∈ agents,
          place d outDir a ≠ place (putPrompt template outDir d a) outDir c := by
        intro c hc he
        rw [hs.place] at he
        exact hm (place_inj hxb (hxrest c hc) he ▸ hc)
      have hgo := node?_putPrompts_of_ne template (hs.leads h) hrest' hne
      exact hgo.trans (by rw [node?_putPrompt template h hbb, if_pos rfl])

end Putting

/-- The disk `d'` holds the prompts of the agents from one to `k` and is otherwise as `d`. -/
structure Holds (template outDir : String) (d : Disk) (k : Nat) (d' : Disk) : Prop where
  directories : SameDirectories d d'
  prompt : ∀ i, 1 ≤ i → i ≤ k →
    d'.node? (place d outDir i) = some (.file (promptBytes template i))
  elsewhere : ∀ l, (∀ i, 1 ≤ i → i ≤ k → l ≠ place d outDir i) → d'.node? l = d.node? l

theorem Holds.later {k i : Nat} (h : Holds template outDir d k d') (hk : k < i)
    (hi : i < exactBound) : d'.node? (place d outDir i) = d.node? (place d outDir i) := by
  refine h.elsewhere _ fun j _ hj he => ?_
  have hij := place_inj hi (by omega) he
  omega

theorem holds_putPrompts {k : Nat} (template : String) (h : d.Leads outDir)
    (hb : ∀ a ∈ firstAgents k, blocked? d outDir a = none)
    (hx : ∀ a ∈ firstAgents k, a < exactBound) :
    Holds template outDir d k (putPrompts template outDir d (firstAgents k)) where
  directories := sameDirectories_putPrompts template h hb
  prompt i h₁ h₂ := node?_putPrompts_of_mem template h hb hx (mem_firstAgents.mpr ⟨h₁, h₂⟩)
  elsewhere l hl := by
    refine node?_putPrompts_of_ne template h hb fun i hi => ?_
    obtain ⟨h₁, h₂⟩ := mem_firstAgents.mp hi
    exact hl i h₁ h₂

section Writing

variable (template) (h : d.Leads outDir)
include h

theorem writePrompts_cons (ha : a < exactBound) (hb : blocked? d outDir a = none)
    (rest : List Nat) :
    writePrompts template outDir d (a :: rest) =
      ⟨⟨promptFilePath outDir (.ofNat a), putPrompt template outDir d a⟩ ::
        (writePrompts template outDir (putPrompt template outDir d a) rest).emissions,
        (writePrompts template outDir (putPrompt template outDir d a) rest).disk,
        (writePrompts template outDir (putPrompt template outDir d a) rest).error⟩ := by
  have hw := writeFile_promptFilePath h ha (promptBytes template a)
  rw [hb] at hw
  rw [writePrompts, ← promptBytes, hw]
  rfl

theorem writePrompts_blocked {e : AccessError} (ha : a < exactBound)
    (hb : blocked? d outDir a = some e) (rest : List Nat) :
    writePrompts template outDir d (a :: rest) = ⟨[], d, some e⟩ := by
  have hw := writeFile_promptFilePath h ha (promptBytes template a)
  rw [hb] at hw
  rw [writePrompts, ← promptBytes, hw]

theorem writePrompts_append (hb : ∀ a ∈ agents, blocked? d outDir a = none)
    (hx : ∀ a ∈ agents, a < exactBound) (rest : List Nat) :
    writePrompts template outDir d (agents ++ rest) =
      ⟨promptEmissions template outDir d agents ++
          (writePrompts template outDir (putPrompts template outDir d agents) rest).emissions,
        (writePrompts template outDir (putPrompts template outDir d agents) rest).disk,
        (writePrompts template outDir (putPrompts template outDir d agents) rest).error⟩ := by
  induction agents generalizing d with
  | nil => rfl
  | cons a agents ih =>
    obtain ⟨ha, hrest⟩ := List.forall_mem_cons.mp hb
    obtain ⟨hxa, hxrest⟩ := List.forall_mem_cons.mp hx
    have hs := sameDirectories_putPrompt template h ha
    rw [List.cons_append, writePrompts_cons template h hxa ha,
      ih (hs.leads h) (fun b hm => hs.blocked?.trans (hrest b hm)) hxrest]
    rfl

end Writing

theorem length_promptEmissions (template outDir : String) (d : Disk) (agents : List Nat) :
    (promptEmissions template outDir d agents).length = agents.length := by
  induction agents generalizing d with
  | nil => rfl
  | cons a agents ih => rw [promptEmissions, List.length_cons, ih, List.length_cons]

theorem map_line_promptEmissions (template outDir : String) (d : Disk) (agents : List Nat) :
    (promptEmissions template outDir d agents).map Emission.line =
      agents.map fun a => promptFilePath outDir (.ofNat a) := by
  induction agents generalizing d with
  | nil => rfl
  | cons a agents ih => rw [promptEmissions, List.map_cons, ih, List.map_cons]

theorem getElem?_promptEmissions (template outDir : String) (d : Disk) (agents : List Nat)
    (i : Nat) : (promptEmissions template outDir d agents)[i]? =
      agents[i]?.map fun a => ⟨promptFilePath outDir (.ofNat a),
        putPrompts template outDir d (agents.take (i + 1))⟩ := by
  induction agents generalizing d i with
  | nil => rfl
  | cons a agents ih =>
    cases i with
    | zero => rfl
    | succ i =>
      rw [promptEmissions, List.getElem?_cons_succ, ih]
      rfl

theorem readInvocations_of_readFile {content : Nat → List UInt8}
    (hr : ∀ a ∈ agents, d.readFile (promptFilePath outDir (.ofNat a)) = .ok (content a)) :
    readInvocations outDir d agents =
      (agents.map fun a => formatInvocation (.ofNat a) (Utf8.decode (content a)), none) := by
  induction agents with
  | nil => rfl
  | cons a agents ih =>
    obtain ⟨ha, hrest⟩ := List.forall_mem_cons.mp hr
    rw [readInvocations, ha]
    simp only [ih hrest, List.map_cons]

end AgentPrompts.Generation
