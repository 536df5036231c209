import AgentPrompts.Proofs.Generation.Run

/-! # Failed generations

A generation fails at its template, at its output directory or at the first prompt file
that cannot be written. Where it failed determines the lines that appeared and what
stands on the disk afterwards.
-/

namespace AgentPrompts.Generation

open Disk Location Number

structure NoTemplate (s : Settings) (d : Disk) (g : Generation) (f : Failure) : Prop where
  load : loadTemplate d s.template = .error f
  cause : ∃ cause, f = .configuration (.templateNotFound s.template cause)
  emissions : g.emissions = []
  disk : g.disk = d

structure NoDirectory (s : Settings) (d : Disk) (g : Generation) (f : Failure) : Prop where
  load : ∃ template, loadTemplate d s.template = .ok template
  cause : ∃ e, d.makeDirectory s.outDir = (g.disk, some e) ∧ f = .access e
  emissions : g.emissions = []
  grown : Grown (stops (d.start s.outDir) (pathParts s.outDir)) d g.disk

/-- A generation that stopped at the prompt file of agent `k`, on the disk `made` that has
the output directory. -/
structure StoppedAt (s : Settings) (d : Disk) (g : Generation) (f : Failure)
    (template : String) (made : Disk) (k : Nat) : Prop where
  load : loadTemplate d s.template = .ok template
  directory : d.makeDirectory s.outDir = (made, none)
  grown : Grown (stops (d.start s.outDir) (pathParts s.outDir)) d made
  agent : k ∈ s.count.agents
  before : ∀ i, 1 ≤ i → i < k → ∃ d',
    made.writeFile (promptFilePath s.outDir (.ofNat i)) (promptBytes template i) = .ok d'
  cause : ∃ e, f = .access e ∧
    made.writeFile (promptFilePath s.outDir (.ofNat k)) (promptBytes template k) = .error e ∧
    g.disk.writeFile (promptFilePath s.outDir (.ofNat k)) (promptBytes template k) = .error e
  lines : g.emissions.map Emission.line =
    manifestHeader :: (firstAgents (k - 1)).map fun i => promptFilePath s.outDir (.ofNat i)
  holds : Holds template s.outDir made (k - 1) g.disk
  later : ∀ i ∈ s.count.agents, k ≤ i →
    g.disk.node? (place made s.outDir i) = made.node? (place made s.outDir i)

variable {s : Settings} {d : Disk} {g : Generation} {f : Failure}

theorem cause_of_loadTemplate {path : String} (h : loadTemplate d path = .error f) :
    ∃ cause, f = .configuration (.templateNotFound path cause) := by
  rw [loadTemplate] at h
  split at h
  next => cases h
  next => exact ⟨none, (Except.error.inj h).symm⟩
  next e _ => exact ⟨some e.code, (Except.error.inj h).symm⟩

theorem Run.failed (hrun : Run s d g) (hx : s.count.BelowExact) (hf : g.result = .error f) :
    NoTemplate s d g f ∨ NoDirectory s d g f ∨
      ∃ template made k, StoppedAt s d g f template made k := by
  cases hrun with
  | noTemplate ht =>
    obtain rfl := Except.error.inj hf
    exact Or.inl ⟨ht, cause_of_loadTemplate ht, rfl, rfl⟩
  | @noDirectory template made e ht hd =>
    obtain rfl := Except.error.inj hf
    have hgrown := makeDirectory_grown d s.outDir
    rw [hd] at hgrown
    exact Or.inr (Or.inl ⟨⟨template, ht⟩, ⟨e, hd, rfl⟩, rfl, hgrown⟩)
  | @stopped template made e n k ht hd hn hk hw hb =>
    obtain rfl := Except.error.inj hf
    have hgrown := makeDirectory_grown d s.outDir
    rw [hd] at hgrown
    have hl := leads_of_made hd
    have hbound : ∀ a ∈ s.count.agents, a < exactBound := fun a => lt_exactBound_of_mem_agents hx
    have hagent : k + 1 ∈ s.count.agents := hn ▸ mem_firstAgents.mpr ⟨by omega, hk⟩
    have hsub : ∀ a ∈ firstAgents k, a < exactBound :=
      fun a ha => hbound a (hn ▸ firstAgents_subset hk.le ha)
    have hs := sameDirectories_putPrompts template hl hw
    have hholds := holds_putPrompts template hl hw hsub
    refine Or.inr (Or.inr ⟨template, made, k + 1, ht, hd, hgrown, hagent, ?_, ⟨e, rfl, ?_, ?_⟩,
      ?_, hholds, ?_⟩)
    · intro i h₁ h₂
      have hi := mem_firstAgents.mpr ⟨h₁, Nat.lt_succ_iff.mp h₂⟩
      have hwrite := writeFile_promptFilePath hl (hsub i hi) (promptBytes template i)
      rw [hw i hi] at hwrite
      exact ⟨_, hwrite⟩
    · rw [writeFile_promptFilePath hl (hbound _ hagent), hb]
    · rw [writeFile_promptFilePath (hs.leads hl) (hbound _ hagent), hs.blocked?, hb]
    · rw [List.map_cons, map_line_promptEmissions]
      rfl
    · exact fun i hi hki => hholds.later hki (hbound i hi)
  | finished ht hd hn hw => cases hf

theorem Run.lt_length_emissions {r : GenerateResult} (hrun : Run s d g) (hr : g.result = .ok r)
    {i : Nat} (hi : i ∈ s.count.agents) : i < g.emissions.length := by
  cases hrun with
  | @finished template made n ht hd hn hw =>
    have hle := (mem_firstAgents.mp (hn ▸ hi)).2
    rw [List.length_cons, List.length_append, length_promptEmissions, length_firstAgents]
    omega
  | _ => cases hr

/-- Where a generation fails determines its lines and its disk, and in every generation the
path line of an agent appears when exactly the files up to the agent's own are written. -/
theorem failure_and_path_lines (hx : s.count.BelowExact) :
    (∀ f, (generate s d).result = .error f →
      NoTemplate s d (generate s d) f ∨ NoDirectory s d (generate s d) f ∨
        ∃ template made k, StoppedAt s d (generate s d) f template made k) ∧
    (∀ i ∈ s.count.agents, ∀ em, (generate s d).emissions[i]? = some em →
      ∃ template made, loadTemplate d s.template = .ok template ∧
        d.makeDirectory s.outDir = (made, none) ∧
        em.line = promptFilePath s.outDir (.ofNat i) ∧
        Holds template s.outDir made i em.disk) ∧
    ∀ r, (generate s d).result = .ok r →
      ∀ i ∈ s.count.agents, i < (generate s d).emissions.length := by
  have hrun := run_generate s d hx
  refine ⟨fun f hf => hrun.failed hx hf, ?_, fun r hr i hi => hrun.lt_length_emissions hr hi⟩
  intro i hi em he
  obtain ⟨template, made, ht, hd, hline, _, hholds⟩ := hrun.emission hx hi he
  exact ⟨template, made, ht, hd, hline, hholds⟩

def obstructed : Disk :=
  ⟨.directory [("o", .directory [("agent_02.md", .directory [])]), ("t", .file [65])], []⟩

theorem failure_and_path_lines_obstructed :
    let s : Settings := ⟨.finite (5 / 2), "t", "o/../o"⟩
    let g := generate s obstructed
    s.count.BelowExact ∧
      g.emissions.map Emission.line = ["# Generated prompts", "o/agent_01.md"] ∧
      ∃ f, g.result = .error f ∧
        (NoTemplate s obstructed g f ∨ NoDirectory s obstructed g f ∨
          ∃ template made k, StoppedAt s obstructed g f template made k) := by
  intro s g
  have hx : s.count.BelowExact := by
    simp only [s, BelowExact, exactBound]
    decide +kernel
  obtain ⟨f, hf⟩ : ∃ f, g.result = .error f := exists_of_not_isOk (by decide +kernel)
  exact ⟨hx, by decide +kernel, f, hf, (failure_and_path_lines hx).1 f hf⟩

end AgentPrompts.Generation
