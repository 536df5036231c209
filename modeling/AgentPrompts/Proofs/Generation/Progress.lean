import AgentPrompts.Proofs.FileTree.Extends
import AgentPrompts.Proofs.Generation.Run

/-! # Progress of a generation

However a generation ends, it has written the prompts of the agents up to some one, and
their path lines are those that have appeared. Everything that stood on the disk still
stands there, and files other than those are as they were.
-/

namespace AgentPrompts.Generation

open Disk Number

variable {s : Settings} {d d' made : Disk} {g : Generation} {r : GenerateResult}
  {template outDir : String} {content : List UInt8} {i k n : Nat}

def Emits (g : Generation) (outDir : String) (agent : Nat) : Prop :=
  promptFilePath outDir (.ofNat agent) ∈ g.emissions.map Emission.line

structure Stored (d : Disk) (outDir : String) (agent : Nat) (content : List UInt8) : Prop where
  leads : d.Leads outDir
  short : (promptFilePath outDir (.ofNat agent)).utf8ByteSize ≤ maxPathBytes
  file : d.node? (place d outDir agent) = some (.file content)

/-- What a generation has done that wrote the prompts of the first `k` agents. -/
structure Wrote (s : Settings) (d : Disk) (g : Generation) (k : Nat) : Prop where
  extended : Extends d g.disk
  exact : ∀ i ∈ firstAgents k, i < exactBound
  emits_iff : ∀ i, i < exactBound → (Emits g s.outDir i ↔ i ∈ firstAgents k)
  stored : ∀ i ∈ firstAgents k, ∃ template, loadTemplate d s.template = .ok template ∧
    Stored g.disk s.outDir i (promptBytes template i)
  kept : ∀ l content, d.node? l = some (.file content) →
    (∀ i ∈ firstAgents k, l ≠ place d s.outDir i) → g.disk.node? l = some (.file content)

/-- The generation of `n` prompts that finds its output directory and meets no obstacle. -/
def unhindered (s : Settings) (template : String) (made : Disk) (n : Nat) : Generation where
  emissions := ⟨manifestHeader, made⟩ ::
    (promptEmissions template s.outDir made (firstAgents n) ++
      descriptorEmissions template (putPrompts template s.outDir made (firstAgents n))
        (firstAgents n))
  disk := putPrompts template s.outDir made (firstAgents n)
  result := .ok ⟨s.count, s.template, s.outDir, listPromptFiles s.outDir s.count,
    (firstAgents n).map fun a => formatInvocation (.ofNat a) (renderPrompt template (.ofNat a))⟩

theorem lines_unhindered : (unhindered s template made n).emissions.map Emission.line =
    manifestHeader :: ((firstAgents n).map (fun a => promptFilePath s.outDir (.ofNat a)) ++
      "" :: invocationsHeader :: (firstAgents n).map fun a =>
        formatInvocation (.ofNat a) (renderPrompt template (.ofNat a))) := by
  simp [unhindered, map_line_promptEmissions, descriptorEmissions, Function.comp_def]

theorem Run.eq_unhindered (hrun : Run s d g) (hr : g.result = .ok r)
    (hagents : s.count.agents = firstAgents n) :
    ∃ template made, loadTemplate d s.template = .ok template ∧
      d.makeDirectory s.outDir = (made, none) ∧
      (∀ a ∈ firstAgents n, blocked? made s.outDir a = none) ∧ g = unhindered s template made n := by
  cases hrun with
  | @finished template made m ht hd hm hw =>
    obtain rfl : m = n := by rw [← length_firstAgents m, ← hm, hagents, length_firstAgents]
    exact ⟨template, made, ht, hd, hw, rfl⟩
  | _ => cases hr

theorem readFile_unhindered (hl : made.Leads s.outDir) (hx : ∀ a ∈ firstAgents n, a < exactBound)
    (hw : ∀ a ∈ firstAgents n, blocked? made s.outDir a = none) (template : String)
    (hi : i ∈ firstAgents n) :
    (unhindered s template made n).disk.readFile (promptFilePath s.outDir (.ofNat i)) =
      .ok (promptBytes template i) := by
  have hs := sameDirectories_putPrompts template hl hw
  have hfile := node?_putPrompts_of_mem template hl hw hx hi
  rw [← hs.place] at hfile
  exact (readFile_promptFilePath (hs.leads hl) (hx i hi)
    (blocked?_eq_none_iff.mp (hw i hi)).1 hfile).2

theorem Stored.read (h : Stored d outDir i content) (hi : i < exactBound) :
    d.locate (promptFilePath outDir (.ofNat i)) = .ok (place d outDir i) ∧
      d.readFile (promptFilePath outDir (.ofNat i)) = .ok content :=
  readFile_promptFilePath h.leads hi h.short h.file

theorem place_of_extends (h : Extends d d') : place d' outDir i = place d outDir i := by
  rw [place, place, target_eq h.workingDirectory]

theorem Stored.extend (h : Stored d outDir i content) (he : Extends d d')
    (hkept : d'.node? (place d outDir i) = some (.file content)) : Stored d' outDir i content where
  leads := he.leads h.leads
  short := h.short
  file := by rwa [place_of_extends he]

theorem ne_promptFilePath {line : String} (h : ¬ ".md".toList <:+ line.toList) (outDir : String)
    (agent : Number) : promptFilePath outDir agent ≠ line := by
  rintro rfl
  exact h (suffix_promptFilePath outDir agent)

theorem promptFilePath_ne_formatInvocation (outDir : String) (agent other : Number)
    (prompt : String) : promptFilePath outDir agent ≠ formatInvocation other prompt := by
  refine ne_promptFilePath ?_ outDir agent
  have hend : ")".toList <:+ (formatInvocation other prompt).toList := by
    unfold formatInvocation
    exact ⟨_, String.toList_append.symm⟩
  have hne : ¬ ")".toList <:+ ".md".toList := by decide
  exact fun hname => hne (List.suffix_of_suffix_length_le hend hname (by decide))

theorem mem_manifest_iff (hx : ∀ a ∈ firstAgents k, a < exactBound) (hi : i < exactBound) :
    promptFilePath outDir (.ofNat i) ∈
        (firstAgents k).map (fun a => promptFilePath outDir (.ofNat a)) ↔
      i ∈ firstAgents k := by
  rw [List.mem_map]
  constructor
  · rintro ⟨a, ha, he⟩
    rwa [promptFilePath_inj hi (hx a ha) he.symm]
  · exact fun h => ⟨i, h, rfl⟩

theorem Holds.extends (h : Holds template outDir made k d') : Extends made d' where
  workingDirectory := h.directories.workingDirectory
  directory l hl := (h.directories.directory l).mpr hl
  file l content hl := by
    by_cases hp : ∃ i ∈ firstAgents k, l = place made outDir i
    · obtain ⟨i, hi, rfl⟩ := hp
      obtain ⟨h₁, h₂⟩ := mem_firstAgents.mp hi
      exact ⟨_, h.prompt i h₁ h₂⟩
    · refine ⟨content, ?_⟩
      rw [h.elsewhere l fun i h₁ h₂ he => hp ⟨i, mem_firstAgents.mpr ⟨h₁, h₂⟩, he⟩, hl]

theorem wrote_of_putPrompts (ht : loadTemplate d s.template = .ok template)
    (hd : d.makeDirectory s.outDir = (made, none))
    (hw : ∀ a ∈ firstAgents k, blocked? made s.outDir a = none)
    (hx : ∀ a ∈ firstAgents k, a < exactBound)
    (hg : g.disk = putPrompts template s.outDir made (firstAgents k))
    (he : ∀ i, i < exactBound → (Emits g s.outDir i ↔ i ∈ firstAgents k)) :
    Wrote s d g k := by
  have hl := leads_of_made hd
  have hholds := holds_putPrompts template hl hw hx
  have hgrown := makeDirectory_grown d s.outDir
  rw [hd] at hgrown
  rw [← hg] at hholds
  have hmade : Extends d made := hgrown.extends
  have hextends := hholds.extends
  refine ⟨hmade.trans hextends, hx, he, ?_, ?_⟩
  · intro i hi
    obtain ⟨h₁, h₂⟩ := mem_firstAgents.mp hi
    refine ⟨template, ht, hextends.leads hl, (blocked?_eq_none_iff.mp (hw i hi)).1, ?_⟩
    rw [place_of_extends hextends]
    exact hholds.prompt i h₁ h₂
  · intro l content hfile hne
    rw [← hgrown.kept hfile]
    refine hholds.elsewhere l fun i h₁ h₂ he => ?_
    rw [place_of_extends hmade] at he
    exact hne i (mem_firstAgents.mpr ⟨h₁, h₂⟩) he

theorem Wrote.file (hw : Wrote s d g k) (ht : loadTemplate d s.template = .ok template)
    (hi : i ∈ firstAgents k) :
    g.disk.node? (place d s.outDir i) = some (.file (promptBytes template i)) := by
  obtain ⟨template', ht', hstored⟩ := hw.stored i hi
  obtain rfl := Except.ok.inj (ht.symm.trans ht')
  rw [← place_of_extends hw.extended]
  exact hstored.file

theorem Wrote.located (hw : Wrote s d g k) (hi : i ∈ firstAgents k) :
    g.disk.locate (promptFilePath s.outDir (.ofNat i)) = .ok (place d s.outDir i) := by
  obtain ⟨_, _, hstored⟩ := hw.stored i hi
  rw [← place_of_extends hw.extended]
  exact (hstored.read (hw.exact i hi)).1

theorem exists_of_loadTemplate {path : String} (ht : loadTemplate d path = .ok template) :
    ∃ l content, d.locate path = .ok l ∧ d.node? l = some (.file content) ∧
      template = Utf8.decode content ∧ ∀ d' content', Extends d d' →
        d'.node? l = some (.file content') → loadTemplate d' path = .ok (Utf8.decode content') := by
  obtain ⟨content, hstat, rfl⟩ := loadTemplate_eq_ok_iff.mp ht
  obtain ⟨hnul, l, hlocate, hfile⟩ := stat_eq_ok_iff.mp hstat
  refine ⟨l, content, hlocate, hfile, rfl, fun d' content' he hfile' => ?_⟩
  exact loadTemplate_eq_ok_iff.mpr
    ⟨content', stat_eq_ok_iff.mpr ⟨hnul, l, he.locate hlocate, hfile'⟩, rfl⟩

theorem Wrote.loadTemplate_of_ne (hw : Wrote s d g k) {path : String}
    (ht : loadTemplate d path = .ok template)
    (hne : ∀ i ∈ firstAgents k, d.locate path ≠ .ok (place d s.outDir i)) :
    loadTemplate g.disk path = .ok template := by
  obtain ⟨l, content, hlocate, hfile, rfl, hload⟩ := exists_of_loadTemplate ht
  refine hload _ content hw.extended (hw.kept l content hfile fun i hi he => hne i hi ?_)
  rw [hlocate, he]

theorem wrote_nothing (he : Extends d g.disk)
    (hkept : ∀ l content, d.node? l = some (.file content) → g.disk.node? l = some (.file content))
    (hg : g.emissions = []) : Wrote s d g 0 where
  extended := he
  exact i hi := by simp [firstAgents] at hi
  emits_iff i _ := by simp [Emits, hg, firstAgents]
  stored i hi := by simp [firstAgents] at hi
  kept l content hl _ := hkept l content hl

theorem wrote_unhindered (ht : loadTemplate d s.template = .ok template)
    (hd : d.makeDirectory s.outDir = (made, none))
    (hw : ∀ a ∈ firstAgents n, blocked? made s.outDir a = none)
    (hx : ∀ a ∈ firstAgents n, a < exactBound) :
    Wrote s d (unhindered s template made n) n := by
  refine wrote_of_putPrompts ht hd hw hx rfl fun i hi => ?_
  have hother : promptFilePath s.outDir (.ofNat i) ∉ "" :: invocationsHeader ::
      (firstAgents n).map fun a =>
        formatInvocation (.ofNat a) (renderPrompt template (.ofNat a)) := by
    rw [List.mem_cons, List.mem_cons, List.mem_map]
    rintro (he | he | ⟨a, _, he⟩)
    · exact ne_promptFilePath (by decide) _ _ he
    · exact ne_promptFilePath (by decide) _ _ he
    · exact promptFilePath_ne_formatInvocation _ _ _ _ he.symm
  rw [Emits, lines_unhindered, List.mem_cons, or_iff_right (ne_promptFilePath (by decide) _ _),
    List.mem_append, or_iff_left hother, mem_manifest_iff hx hi]

/-- However a generation ends, it has written the prompts of the agents up to some one. -/
theorem Run.wrote (hrun : Run s d g) (hx : s.count.BelowExact) : ∃ k, Wrote s d g k := by
  have hbound : ∀ a ∈ s.count.agents, a < exactBound := fun a => lt_exactBound_of_mem_agents hx
  have hmanifest : ∀ outDir agent, promptFilePath outDir agent ≠ manifestHeader :=
    ne_promptFilePath (by decide)
  cases hrun with
  | noTemplate ht => exact ⟨0, wrote_nothing (Extends.refl d) (fun _ _ h => h) rfl⟩
  | noDirectory ht hd =>
    have hgrown := makeDirectory_grown d s.outDir
    rw [hd] at hgrown
    exact ⟨0, wrote_nothing hgrown.extends (fun _ _ h => hgrown.kept h) rfl⟩
  | @stopped template made e n k ht hd hn hk hw hb =>
    have hx' : ∀ a ∈ firstAgents k, a < exactBound :=
      fun a ha => hbound a (hn ▸ firstAgents_subset hk.le ha)
    refine ⟨k, wrote_of_putPrompts ht hd hw hx' rfl fun i hi => ?_⟩
    rw [Emits, List.map_cons, map_line_promptEmissions, List.mem_cons,
      or_iff_right (hmanifest _ _), mem_manifest_iff hx' hi]
  | @finished template made n ht hd hn hw => exact ⟨n, wrote_unhindered ht hd hw (hn ▸ hbound)⟩

end AgentPrompts.Generation
