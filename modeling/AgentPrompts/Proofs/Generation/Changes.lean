import AgentPrompts.Proofs.Generation.Run

/-! # Changes of a generation

Wherever a generation ends, a location is as it was, or it is a new directory, or it is the
place of a prompt file that the generation has written.
-/

namespace AgentPrompts.Generation

open Disk Location Number

variable {s : Settings} {d made d' : Disk} {g : Generation} {template outDir : String} {k : Nat}

/-- What making directories and then writing prompts does to a location. -/
theorem Holds.node_cases {ls : List Location} (h : Holds template outDir made k d')
    (hgrown : Grown ls d made) (hl : made.Leads outDir)
    (hw : ∀ a ∈ firstAgents k, blocked? made outDir a = none)
    (hx : ∀ a ∈ firstAgents k, a < exactBound) (l : Location) :
    d'.node? l = d.node? l ∨
      d.node? l = none ∧ d'.node? l = some .directory ∨
      ∃ i ∈ firstAgents k, d'.locate (promptFilePath outDir (.ofNat i)) = .ok l ∧
        ∃ content, d'.node? l = some (.file content) := by
  by_cases hplace : ∃ i ∈ firstAgents k, l = place made outDir i
  · obtain ⟨i, hi, rfl⟩ := hplace
    have hs := h.directories
    have hfile := h.prompt i (mem_firstAgents.mp hi).1 (mem_firstAgents.mp hi).2
    have hread := readFile_promptFilePath (hs.leads hl) (hx i hi)
      (blocked?_eq_none_iff.mp (hw i hi)).1 (hs.place ▸ hfile)
    rw [hs.place] at hread
    exact Or.inr (Or.inr ⟨i, hi, hread.1, _, hfile⟩)
  · have he : d'.node? l = made.node? l := by
      refine h.elsewhere l fun i h₁ h₂ hl => ?_
      exact hplace ⟨i, mem_firstAgents.mpr ⟨h₁, h₂⟩, hl⟩
    rw [he]
    rcases hgrown.node l with he' | ⟨_, hnone, hdir⟩
    · exact Or.inl he'
    · exact Or.inr (Or.inl ⟨hnone, hdir⟩)

theorem Run.node_cases (hrun : Run s d g) (hx : s.count.BelowExact) (l : Location) :
    g.disk.node? l = d.node? l ∨
      d.node? l = none ∧ g.disk.node? l = some .directory ∨
      ∃ i ∈ s.count.agents, g.disk.locate (promptFilePath s.outDir (.ofNat i)) = .ok l ∧
        ∃ content, g.disk.node? l = some (.file content) := by
  have hbound : ∀ a ∈ s.count.agents, a < exactBound := fun a => lt_exactBound_of_mem_agents hx
  have hgrown := makeDirectory_grown d s.outDir
  cases hrun with
  | noTemplate ht => exact Or.inl rfl
  | noDirectory ht hd =>
    rw [hd] at hgrown
    rcases hgrown.node l with he | ⟨_, hnone, hdir⟩
    · exact Or.inl he
    · exact Or.inr (Or.inl ⟨hnone, hdir⟩)
  | @stopped template made e n k ht hd hn hk hw hb =>
    rw [hd] at hgrown
    have hl := leads_of_made hd
    have hsub : ∀ a ∈ firstAgents k, a ∈ s.count.agents :=
      fun a ha => hn ▸ firstAgents_subset hk.le ha
    have hx' := fun a ha => hbound a (hsub a ha)
    rcases (holds_putPrompts template hl hw hx').node_cases hgrown hl hw hx' l with
      he | hdir | ⟨i, hi, hfile⟩
    · exact Or.inl he
    · exact Or.inr (Or.inl hdir)
    · exact Or.inr (Or.inr ⟨i, hsub i hi, hfile⟩)
  | @finished template made n ht hd hn hw =>
    rw [hd] at hgrown
    rw [hn] at hbound ⊢
    have hl := leads_of_made hd
    exact (holds_putPrompts template hl hw hbound).node_cases hgrown hl hw hbound l

theorem Run.readFile_of_returned {r : GenerateResult} (hrun : Run s d g)
    (hx : s.count.BelowExact) (hr : g.result = .ok r) {i : Nat} (hi : i ∈ s.count.agents) :
    ∃ content, g.disk.readFile (promptFilePath s.outDir (.ofNat i)) = .ok content := by
  have hbound : ∀ a ∈ s.count.agents, a < exactBound := fun a => lt_exactBound_of_mem_agents hx
  cases hrun with
  | @finished template made n ht hd hn hw =>
    rw [hn] at hi hbound
    have hl := leads_of_made hd
    have hs := sameDirectories_putPrompts template hl hw
    have hfile := node?_putPrompts_of_mem template hl hw hbound hi
    rw [← hs.place] at hfile
    exact ⟨_, (readFile_promptFilePath (hs.leads hl) (hbound i hi)
      (blocked?_eq_none_iff.mp (hw i hi)).1 hfile).2⟩
  | _ => cases hr

end AgentPrompts.Generation
