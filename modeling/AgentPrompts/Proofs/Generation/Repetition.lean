import AgentPrompts.Proofs.Generation.Delivery
import AgentPrompts.Proofs.Generation.Progress
import AgentPrompts.Proofs.Prompt.Rendering

/-! # Repeated generations

A generation that has returned returns again with the same settings, on the disk that it
left. It then does the same and changes nothing, unless it has put a prompt in the place
of its own template: from two agents on, a template with a marker is then lost, and all
prompts become the one in its place.
-/

namespace AgentPrompts.Generation

open Disk Number

variable {s : Settings} {d made : Disk} {g : Generation} {template reread outDir : String}
  {r : GenerateResult} {i j k n : Nat}

structure Repeats (g again : Generation) : Prop where
  lines : again.emissions.map Emission.line = g.emissions.map Emission.line
  result : again.result = g.result
  disk : again.disk = g.disk

/-- Whether the prompt file of an agent is the file in which a generation found its template. -/
def OverwritesTemplate (s : Settings) (g : Generation) (agent : Nat) : Prop :=
  g.disk.locate s.template = g.disk.locate (promptFilePath s.outDir (.ofNat agent))

theorem generate_of_leads (hl : d.Leads s.outDir) (ht : loadTemplate d s.template = .ok template)
    (hagents : s.count.agents = firstAgents n) (hx : ∀ a ∈ firstAgents n, a < exactBound)
    (hw : ∀ a ∈ firstAgents n, blocked? d s.outDir a = none) :
    generate s d = unhindered s template d n := by
  rw [generate, ht]
  simp only [makeDirectory_of_leads hl]
  exact writeAndState_of_free hl hagents hx template hw

theorem putPrompts_eq_self {agents : List Nat} (h : ∀ a ∈ agents,
    d.node? (place d outDir a) = some (.file (promptBytes template a))) :
    putPrompts template outDir d agents = d := by
  induction agents with
  | nil => rfl
  | cons a agents ih =>
    obtain ⟨ha, hrest⟩ := List.forall_mem_cons.mp h
    have hentry : d.root.get? (place d outDir a) = some (.file (promptBytes template a)) := by
      obtain ⟨e, he, hnode⟩ := Option.map_eq_some_iff.mp ha
      cases e with
      | directory cs => cases hnode
      | file content => rw [he, Node.file.inj hnode]
    have hput : putPrompt template outDir d a = d := by
      rw [putPrompt, Disk.put, Entry.put_of_get? hentry]
    rw [putPrompts, List.foldl_cons, hput]
    exact ih hrest

theorem Wrote.reload (hw : Wrote s d g k) (ht : loadTemplate d s.template = .ok template) :
    (∃ i ∈ firstAgents k, OverwritesTemplate s g i ∧
      loadTemplate g.disk s.template = .ok (renderPrompt template (.ofNat i))) ∨
    (∀ i ∈ firstAgents k, ¬ OverwritesTemplate s g i) ∧
      loadTemplate g.disk s.template = .ok template := by
  obtain ⟨l, _, hlocate, _, rfl, hload⟩ := exists_of_loadTemplate ht
  have hagain := hw.extended.locate hlocate
  by_cases hplace : ∃ i ∈ firstAgents k, l = place d s.outDir i
  · obtain ⟨i, hi, rfl⟩ := hplace
    refine Or.inl ⟨i, hi, hagain.trans (hw.located hi).symm, ?_⟩
    rw [hload _ _ hw.extended (hw.file ht hi), promptBytes, Utf8.decode_encode]
  · refine Or.inr ⟨fun i hi he => ?_, hw.loadTemplate_of_ne ht fun i hi he => ?_⟩
    · rw [OverwritesTemplate, hagain, hw.located hi] at he
      exact hplace ⟨i, hi, Except.ok.inj he⟩
    · exact hplace ⟨i, hi, Except.ok.inj (hlocate.symm.trans he)⟩

section Again

variable (hl : made.Leads s.outDir) (hx : ∀ a ∈ firstAgents n, a < exactBound)
  (hw : ∀ a ∈ firstAgents n, blocked? made s.outDir a = none)
include hl hw

theorem free_unhindered (template : String) :
    (unhindered s template made n).disk.Leads s.outDir ∧
      ∀ a ∈ firstAgents n, blocked? (unhindered s template made n).disk s.outDir a = none := by
  have hs := sameDirectories_putPrompts template hl hw
  exact ⟨hs.leads hl, fun a ha => hs.blocked?.trans (hw a ha)⟩

include hx

theorem generate_unhindered (hagents : s.count.agents = firstAgents n)
    (ht : loadTemplate (unhindered s template made n).disk s.template = .ok reread) :
    generate s (unhindered s template made n).disk =
      unhindered s reread (unhindered s template made n).disk n := by
  obtain ⟨hl', hw'⟩ := free_unhindered hl hw template
  exact generate_of_leads hl' ht hagents hx hw'

/-- A generation from another template repeats one when that template is rendered to the
same prompts. -/
theorem repeats_unhindered_iff : Repeats (unhindered s template made n)
      (unhindered s reread (unhindered s template made n).disk n) ↔
    ∀ i ∈ firstAgents n, renderPrompt reread (.ofNat i) = renderPrompt template (.ofNat i) := by
  constructor
  · intro h i hi
    obtain ⟨hl', hw'⟩ := free_unhindered hl hw template
    have hagain := readFile_unhindered hl' hx hw' reread hi
    rw [h.disk, readFile_unhindered hl hx hw template hi] at hagain
    have hbytes := Except.ok.inj hagain
    rw [promptBytes, promptBytes] at hbytes
    rw [← Utf8.decode_encode (renderPrompt reread _), ← hbytes, Utf8.decode_encode]
  · intro h
    have hstated : (firstAgents n).map
          (fun a => formatInvocation (.ofNat a) (renderPrompt reread (.ofNat a))) =
        (firstAgents n).map
          fun a => formatInvocation (.ofNat a) (renderPrompt template (.ofNat a)) :=
      List.map_congr_left fun a ha => by rw [h a ha]
    refine ⟨?_, ?_, putPrompts_eq_self fun a ha => ?_⟩
    · rw [lines_unhindered, lines_unhindered, hstated]
    · simp only [unhindered, hstated]
    · rw [unhindered, (sameDirectories_putPrompts template hl hw).place,
        node?_putPrompts_of_mem template hl hw hx ha, promptBytes, promptBytes, h a ha]

end Again

theorem renderPrompt_same_iff (hx : ∀ a ∈ firstAgents n, a < exactBound)
    (hk : k ∈ firstAgents n) :
    (∀ i ∈ firstAgents n, renderPrompt template (.ofNat k) = renderPrompt template (.ofNat i)) ↔
      ¬ (HoldsMarker template ∧ 2 ≤ n) := by
  constructor
  · rintro h ⟨hmarker, hn⟩
    have hself : ∀ i ∈ firstAgents n, k = i :=
      fun i hi => agent_of_renderPrompt (hx k hk) (hx i hi) hmarker (h i hi)
    have hone := hself 1 (mem_firstAgents.mpr ⟨le_refl 1, by omega⟩)
    have htwo := hself 2 (mem_firstAgents.mpr ⟨by omega, hn⟩)
    omega
  · intro h i hi
    by_cases hmarker : HoldsMarker template
    · obtain ⟨hk₁, hk₂⟩ := mem_firstAgents.mp hk
      obtain ⟨hi₁, hi₂⟩ := mem_firstAgents.mp hi
      have hn : ¬ 2 ≤ n := fun hn => h ⟨hmarker, hn⟩
      obtain rfl : k = i := by omega
      rfl
    · rw [renderPrompt_of_not_marker hmarker, renderPrompt_of_not_marker hmarker]

structure Repetition (s : Settings) (template : String) (n : Nat) (g again : Generation) :
    Prop where
  returns : ∃ r r', g.result = .ok r ∧ again.result = .ok r' ∧ r'.files = r.files
  repeats_iff : Repeats g again ↔
    ¬ ((∃ k ∈ firstAgents n, OverwritesTemplate s g k) ∧ HoldsMarker template ∧ 2 ≤ n)
  overwritten : ∀ k ∈ firstAgents n, OverwritesTemplate s g k → ∀ i ∈ firstAgents n,
    again.disk.readFile (promptFilePath s.outDir (.ofNat i)) =
      .ok (Utf8.encode (renderPrompt template (.ofNat k)))

theorem Wrote.overwrites_inj (hw : Wrote s d g n) (hj : j ∈ firstAgents n)
    (hk : k ∈ firstAgents n) (h : OverwritesTemplate s g j) (h' : OverwritesTemplate s g k) :
    j = k := by
  have hplace := h.symm.trans h'
  rw [hw.located hj, hw.located hk] at hplace
  exact place_inj (hw.exact j hj) (hw.exact k hk) (Except.ok.inj hplace)

/-- A generation that has returned is repeated by the next with the same settings, unless
it has put one of several different prompts in the place of its template. -/
theorem repetition_of_generate {n : Nat} (hc : s.count = .ofNat n) (hn : n < exactBound)
    (hr : (generate s d).result = .ok r) :
    ∃ template, loadTemplate d s.template = .ok template ∧
      Repetition s template n (generate s d) (generate s (generate s d).disk) := by
  have hagents : s.count.agents = firstAgents n := by rw [hc, agents_ofNat]
  have hx : ∀ a ∈ firstAgents n, a < exactBound := fun a ha =>
    (mem_firstAgents.mp ha).2.trans_lt hn
  have hrun := run_generate s d (hc ▸ belowExact_ofNat.mpr hn)
  obtain ⟨template, made, ht, hd, hw, hg⟩ := hrun.eq_unhindered hr hagents
  have hl := leads_of_made hd
  have hwrote := wrote_unhindered ht hd hw hx
  refine ⟨template, ht, ?_⟩
  rw [hg]
  rcases hwrote.reload ht with ⟨k, hk, hover, hreread⟩ | ⟨hnone, hreread⟩
  · rw [generate_unhindered hl hx hw hagents hreread]
    have hsame := renderPrompt_renderPrompt (hx k hk) template
    refine ⟨⟨_, _, rfl, rfl, rfl⟩, ?_, ?_⟩
    · rw [repeats_unhindered_iff hl hx hw]
      simp only [hsame, renderPrompt_same_iff hx hk]
      exact not_congr (and_iff_right ⟨k, hk, hover⟩).symm
    · intro j hj hover' i hi
      obtain rfl := hwrote.overwrites_inj hk hj hover hover'
      obtain ⟨hl', hw'⟩ := free_unhindered hl hw template
      rw [readFile_unhindered hl' hx hw' _ hi, promptBytes, hsame]
  · rw [generate_unhindered hl hx hw hagents hreread]
    refine ⟨⟨_, _, rfl, rfl, rfl⟩, ?_, fun k hk hover => absurd hover (hnone k hk)⟩
    rw [repeats_unhindered_iff hl hx hw]
    refine iff_of_true (fun _ _ => rfl) ?_
    rintro ⟨⟨k, hk, hover⟩, _⟩
    exact hnone k hk hover

/-- The template in the place of the first prompt, and both prompts made from what was put
there. -/
theorem repetition_of_generate_overwritten :
    let s : Settings := ⟨.ofNat 2, "o/agent_01.md", "x/..//o/"⟩
    let g := generate s overwritten
    let again := generate s g.disk
    (∃ r, g.result = .ok r) ∧ g.disk.node? ["o", "agent_02.md"] = some (.file [50]) ∧
      again.disk.node? ["o", "agent_02.md"] = some (.file [49]) ∧
      ∃ template, loadTemplate overwritten s.template = .ok template ∧
        Repetition s template 2 g again := by
  intro s g again
  obtain ⟨r, hr⟩ : ∃ r, g.result = .ok r := exists_of_isOk (by decide +kernel)
  exact ⟨⟨r, hr⟩, by decide +kernel, by decide +kernel,
    repetition_of_generate rfl (by decide) hr⟩

/-- A generation that has returned need not be repeated by the next. -/
theorem not_repeats_of_generate :
    ¬ ∀ (s : Settings) (d : Disk) (n : Nat) (r : GenerateResult),
      isAbsolutePath s.outDir = false → s.count = .ofNat n → n < exactBound →
      (generate s d).result = .ok r →
      Repeats (generate s d) (generate s (generate s d).disk) := by
  intro h
  obtain ⟨r, hr⟩ : ∃ r, (generate ⟨.ofNat 2, "o/agent_01.md", "o"⟩ overwritten).result = .ok r :=
    exists_of_isOk (by decide +kernel)
  have hdisk := (h ⟨.ofNat 2, "o/agent_01.md", "o"⟩ overwritten 2 r (by decide) rfl (by decide)
    hr).disk
  have hnode := congrArg (fun d => d.node? ["o", "agent_02.md"]) hdisk
  revert hnode
  decide +kernel

end AgentPrompts.Generation
