import AgentPrompts.Proofs.Generation.Run

/-! # Finished generations

A generation that returns has written one file for each agent, each a different file with
the prompt made from the template as it was at the start. Everything else that stood on
the disk still stands there, and what is new are those files and the output directory.
-/

namespace AgentPrompts.Generation

open Disk Location Number

/-- What a generation of `n` prompts from a template leaves when it returns `r`. -/
structure Delivered (s : Settings) (d : Disk) (n : Nat) (template : String) (g : Generation)
    (r : GenerateResult) : Prop where
  files : r.files = (firstAgents n).map fun i => promptFilePath s.outDir (.ofNat i)
  located : ∀ i ∈ firstAgents n,
    g.disk.locate (promptFilePath s.outDir (.ofNat i)) = .ok (place g.disk s.outDir i)
  different : ∀ i ∈ firstAgents n, ∀ j ∈ firstAgents n,
    place g.disk s.outDir i = place g.disk s.outDir j → i = j
  content : ∀ i ∈ firstAgents n, g.disk.node? (place g.disk s.outDir i) =
    some (.file (Utf8.encode (renderPrompt template (.ofNat i))))
  readBack : ∀ i ∈ firstAgents n,
    (g.disk.readFile (promptFilePath s.outDir (.ofNat i))).map Utf8.decode =
      .ok (renderPrompt template (.ofNat i))
  invocations : r.invocations = (firstAgents n).map fun i =>
    formatInvocation (.ofNat i) (renderPrompt template (.ofNat i))
  kept : ∀ l node, d.node? l = some node → g.disk.node? l = some node ∨
    (∃ i ∈ firstAgents n, l = place g.disk s.outDir i) ∧ ∃ content, node = .file content
  added : ∀ l node, d.node? l = none → g.disk.node? l = some node →
    (∃ i ∈ firstAgents n, l = place g.disk s.outDir i) ∨
      node = .directory ∧ (d.makeDirectory s.outDir).1.node? l = some .directory ∧
        l ∈ stops (d.start s.outDir) (pathParts s.outDir)

variable {s : Settings} {d : Disk} {g : Generation} {r : GenerateResult}

section Frame

variable {template outDir : String} {made d' : Disk} {k : Nat} {l : Location} {node : Node}

theorem Holds.kept (h : Holds template outDir made k d')
    (hw : ∀ a ∈ firstAgents k, blocked? made outDir a = none)
    (hnode : made.node? l = some node) :
    d'.node? l = some node ∨
      (∃ i ∈ firstAgents k, l = place made outDir i) ∧ ∃ content, node = .file content := by
  by_cases hl : ∃ i ∈ firstAgents k, l = place made outDir i
  · obtain ⟨i, hi, rfl⟩ := hl
    have hdir := (blocked?_eq_none_iff.mp (hw i hi)).2
    rw [hnode] at hdir
    cases node with
    | file content => exact Or.inr ⟨⟨i, hi, rfl⟩, content, rfl⟩
    | directory => exact absurd rfl hdir
  · refine Or.inl ?_
    rw [h.elsewhere l fun i h₁ h₂ he => hl ⟨i, mem_firstAgents.mpr ⟨h₁, h₂⟩, he⟩, hnode]

theorem Holds.added {ls : List Location} (h : Holds template outDir made k d')
    (hgrown : Grown ls d made) (hnone : d.node? l = none) (hnode : d'.node? l = some node) :
    (∃ i ∈ firstAgents k, l = place made outDir i) ∨
      node = .directory ∧ made.node? l = some .directory ∧ l ∈ ls := by
  by_cases hl : ∃ i ∈ firstAgents k, l = place made outDir i
  · exact Or.inl hl
  · rw [h.elsewhere l fun i h₁ h₂ he => hl ⟨i, mem_firstAgents.mpr ⟨h₁, h₂⟩, he⟩] at hnode
    rcases hgrown.node l with he | ⟨hm, _, hdir⟩
    · rw [he, hnone] at hnode
      cases hnode
    · rw [hdir] at hnode
      exact Or.inr ⟨(Option.some_inj.mp hnode).symm, hdir, hm⟩

end Frame

theorem Run.delivered (hrun : Run s d g) {n : Nat} (hc : s.count = .ofNat n)
    (hn : n < exactBound) (hr : g.result = .ok r) :
    ∃ template, loadTemplate d s.template = .ok template ∧ Delivered s d n template g r := by
  cases hrun with
  | @finished template made m ht hd hm hw =>
    obtain rfl := Except.ok.inj hr
    have hagents : firstAgents m = firstAgents n := by rw [← hm, hc, agents_ofNat]
    rw [hagents] at hw ⊢
    have hl := leads_of_made hd
    have hx : ∀ a ∈ firstAgents n, a < exactBound := by
      intro a ha
      have := (mem_firstAgents.mp ha).2
      omega
    have hs := sameDirectories_putPrompts template hl hw
    have hholds := holds_putPrompts template hl hw hx
    have hgrown := makeDirectory_grown d s.outDir
    have hfile : ∀ i ∈ firstAgents n,
        (putPrompts template s.outDir made (firstAgents n)).node?
          (place (putPrompts template s.outDir made (firstAgents n)) s.outDir i) =
          some (.file (promptBytes template i)) := by
      intro i hi
      rw [hs.place]
      exact node?_putPrompts_of_mem template hl hw hx hi
    have hread := fun i hi => readFile_promptFilePath (hs.leads hl) (hx i hi)
      (blocked?_eq_none_iff.mp (hw i hi)).1 (hfile i hi)
    rw [hd] at hgrown
    refine ⟨template, ht, ?_⟩
    exact
      { files := by rw [listPromptFiles, hc, agents_ofNat]
        located := fun i hi => (hread i hi).1
        different := fun i hi j hj he => place_inj (hx i hi) (hx j hj) he
        content := hfile
        readBack := by
          intro i hi
          rw [(hread i hi).2, Except.map, promptBytes, Utf8.decode_encode]
        invocations := rfl
        kept := by
          intro l node hnode
          simp only [hs.place]
          exact hholds.kept hw (hgrown.kept hnode)
        added := by
          intro l node hnone hnode
          simp only [hs.place, hd]
          exact hholds.added hgrown hnone hnode }
  | _ => cases hr

/-- A generation that returns has delivered every prompt and changed nothing else. -/
theorem delivered_of_generate {n : Nat} (hc : s.count = .ofNat n) (hn : n < exactBound)
    (hr : (generate s d).result = .ok r) :
    ∃ content, d.readFile s.template = .ok content ∧
      Delivered s d n (Utf8.decode content) (generate s d) r := by
  have hx : s.count.BelowExact := hc ▸ belowExact_ofNat.mpr hn
  obtain ⟨template, ht, hdelivered⟩ := (run_generate s d hx).delivered hc hn hr
  obtain ⟨content, hstat, rfl⟩ := loadTemplate_eq_ok_iff.mp ht
  refine ⟨content, ?_, hdelivered⟩
  rw [readFile, hstat]

def overwritten : Disk :=
  ⟨.directory [("o", .directory [("agent_01.md", .file [123, 78, 125])])], []⟩

theorem delivered_of_generate_overwritten :
    let s : Settings := ⟨.ofNat 2, "o/agent_01.md", "x/..//o/"⟩
    let g := generate s overwritten
    ∃ r, g.result = .ok r ∧ ∃ content, overwritten.readFile s.template = .ok content ∧
      Delivered s overwritten 2 (Utf8.decode content) g r := by
  intro s g
  obtain ⟨r, hr⟩ : ∃ r, g.result = .ok r := exists_of_isOk (by decide +kernel)
  exact ⟨r, hr, delivered_of_generate rfl (by decide) hr⟩

end AgentPrompts.Generation
