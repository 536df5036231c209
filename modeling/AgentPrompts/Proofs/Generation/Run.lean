import AgentPrompts.Proofs.Generation.Writing

/-! # Runs of a generation

A generation ends in one of four ways: without a template, without an output directory,
at the first prompt file that is blocked, or with all prompts written and all descriptors
stated. What a run leaves follows from these four.
-/

namespace AgentPrompts.Generation

open Disk Number

theorem exists_of_isOk {ε α : Type} {x : Except ε α} (h : x.isOk = true) : ∃ a, x = .ok a := by
  cases x with
  | ok a => exact ⟨a, rfl⟩
  | error e => cases h

theorem exists_of_not_isOk {ε α : Type} {x : Except ε α} (h : x.isOk = false) :
    ∃ e, x = .error e := by
  cases x with
  | ok a => cases h
  | error e => exact ⟨e, rfl⟩

def descriptorEmissions (template : String) (d : Disk) (agents : List Nat) : List Emission :=
  ⟨"", d⟩ :: ⟨invocationsHeader, d⟩ :: agents.map fun a =>
    ⟨formatInvocation (.ofNat a) (renderPrompt template (.ofNat a)), d⟩

inductive Run (s : Settings) (d : Disk) : Generation → Prop where
  | noTemplate {f : Failure} (ht : loadTemplate d s.template = .error f) :
      Run s d ⟨[], d, .error f⟩
  | noDirectory {template : String} {made : Disk} {e : AccessError}
      (ht : loadTemplate d s.template = .ok template)
      (hd : d.makeDirectory s.outDir = (made, some e)) :
      Run s d ⟨[], made, .error (.access e)⟩
  | stopped {template : String} {made : Disk} {e : AccessError} {n k : Nat}
      (ht : loadTemplate d s.template = .ok template)
      (hd : d.makeDirectory s.outDir = (made, none))
      (hn : s.count.agents = firstAgents n) (hk : k < n)
      (hw : ∀ a ∈ firstAgents k, blocked? made s.outDir a = none)
      (hb : blocked? made s.outDir (k + 1) = some e) :
      Run s d ⟨⟨manifestHeader, made⟩ :: promptEmissions template s.outDir made (firstAgents k),
        putPrompts template s.outDir made (firstAgents k), .error (.access e)⟩
  | finished {template : String} {made : Disk} {n : Nat}
      (ht : loadTemplate d s.template = .ok template)
      (hd : d.makeDirectory s.outDir = (made, none))
      (hn : s.count.agents = firstAgents n)
      (hw : ∀ a ∈ firstAgents n, blocked? made s.outDir a = none) :
      Run s d ⟨⟨manifestHeader, made⟩ :: (promptEmissions template s.outDir made (firstAgents n) ++
          descriptorEmissions template (putPrompts template s.outDir made (firstAgents n))
            (firstAgents n)),
        putPrompts template s.outDir made (firstAgents n),
        .ok ⟨s.count, s.template, s.outDir, listPromptFiles s.outDir s.count,
          (firstAgents n).map fun a =>
            formatInvocation (.ofNat a) (renderPrompt template (.ofNat a))⟩⟩

variable {s : Settings} {d d' : Disk} {template outDir : String} {agents : List Nat}

theorem loadTemplate_eq_ok_iff {path template : String} : loadTemplate d path = .ok template ↔
    ∃ content, d.stat path = .ok (.file content) ∧ template = Utf8.decode content := by
  rw [loadTemplate]
  constructor
  · intro h
    split at h
    next content he => exact ⟨content, he, (Except.ok.inj h).symm⟩
    next => cases h
    next => cases h
  · rintro ⟨content, hstat, rfl⟩
    rw [hstat]

theorem leads_of_made (h : d.makeDirectory outDir = (d', none)) : d'.Leads outDir := by
  have hm : (d.makeDirectory outDir).1.Leads outDir := leads_of_makeDirectory (by rw [h])
  rwa [h] at hm

theorem readInvocations_putPrompts (template : String) (h : d.Leads outDir)
    (hb : ∀ a ∈ agents, blocked? d outDir a = none) (hx : ∀ a ∈ agents, a < exactBound) :
    readInvocations outDir (putPrompts template outDir d agents) agents =
      (agents.map fun a => formatInvocation (.ofNat a) (renderPrompt template (.ofNat a)),
        none) := by
  have hs := sameDirectories_putPrompts template h hb
  have hread : ∀ a ∈ agents, (putPrompts template outDir d agents).readFile
      (promptFilePath outDir (.ofNat a)) = .ok (promptBytes template a) := by
    intro a ha
    have hfile := node?_putPrompts_of_mem template h hb hx ha
    rw [← hs.place] at hfile
    exact (readFile_promptFilePath (hs.leads h) (hx a ha)
      (blocked?_eq_none_iff.mp (hb a ha)).1 hfile).2
  rw [readInvocations_of_readFile hread]
  simp only [promptBytes, Utf8.decode_encode]

section Made

variable {made : Disk} {n : Nat} (hl : made.Leads s.outDir) (hn : s.count.agents = firstAgents n)
  (hx : ∀ a ∈ firstAgents n, a < exactBound)
include hl hn hx

theorem writeAndState_of_free (template : String)
    (hw : ∀ a ∈ firstAgents n, blocked? made s.outDir a = none) :
    writeAndState s template made =
      ⟨⟨manifestHeader, made⟩ :: (promptEmissions template s.outDir made (firstAgents n) ++
          descriptorEmissions template (putPrompts template s.outDir made (firstAgents n))
            (firstAgents n)),
        putPrompts template s.outDir made (firstAgents n),
        .ok ⟨s.count, s.template, s.outDir, listPromptFiles s.outDir s.count,
          (firstAgents n).map fun a =>
            formatInvocation (.ofNat a) (renderPrompt template (.ofNat a))⟩⟩ := by
  have hwrite := writePrompts_append template hl hw hx []
  rw [List.append_nil, writePrompts, List.append_nil] at hwrite
  have hread := readInvocations_putPrompts template hl hw hx
  simp [writeAndState, hn, hwrite, hread, descriptorEmissions, Function.comp_def]

theorem writeAndState_of_blocked (template : String) {k : Nat} {e : AccessError} (hk : k < n)
    (hw : ∀ a ∈ firstAgents k, blocked? made s.outDir a = none)
    (hb : blocked? made s.outDir (k + 1) = some e) :
    writeAndState s template made =
      ⟨⟨manifestHeader, made⟩ :: promptEmissions template s.outDir made (firstAgents k),
        putPrompts template s.outDir made (firstAgents k), .error (.access e)⟩ := by
  have hs := sameDirectories_putPrompts template hl hw
  have hbound : ∀ a ∈ firstAgents k, a < exactBound :=
    fun a ha => hx a (firstAgents_subset hk.le ha)
  have hnext : k + 1 < exactBound := hx _ (mem_firstAgents.mpr ⟨Nat.succ_pos k, hk⟩)
  have hwrite := writePrompts_append template hl hw hbound
    ((k + 1) :: (firstAgents n).drop (k + 1))
  rw [writePrompts_blocked template (hs.leads hl) hnext (hs.blocked?.trans hb),
    List.append_nil, ← firstAgents_split hk] at hwrite
  simp only [writeAndState, hn, hwrite]

end Made

theorem run_generate (s : Settings) (d : Disk) (hx : s.count.BelowExact) :
    Run s d (generate s d) := by
  obtain ⟨n, hn⟩ := exists_agents s.count
  have hbound : ∀ a ∈ firstAgents n, a < exactBound :=
    fun a ha => lt_exactBound_of_mem_agents hx (hn ▸ ha)
  rw [generate]
  cases ht : loadTemplate d s.template with
  | error f => exact .noTemplate ht
  | ok template =>
    rcases hd : d.makeDirectory s.outDir with ⟨made, _ | e⟩
    · have hl := leads_of_made hd
      rcases firstAgents_cases (fun a => blocked? made s.outDir a = none) n with
        hw | ⟨k, hk, hw, hb⟩
      · simp only [writeAndState_of_free hl hn hbound template hw]
        exact .finished ht hd hn hw
      · obtain ⟨e, he⟩ := Option.ne_none_iff_exists'.mp hb
        simp only [writeAndState_of_blocked hl hn hbound template hk hw he]
        exact .stopped ht hd hn hk hw he
    · exact .noDirectory ht hd

theorem emission_of_promptEmissions {made : Disk} {j k : Nat} {em : Emission}
    (hl : made.Leads outDir) (hw : ∀ a ∈ firstAgents k, blocked? made outDir a = none)
    (hx : ∀ a ∈ firstAgents k, a < exactBound) (hj : j < k)
    (he : (promptEmissions template outDir made (firstAgents k))[j]? = some em) :
    em.line = promptFilePath outDir (.ofNat (j + 1)) ∧
      blocked? made outDir (j + 1) = none ∧ Holds template outDir made (j + 1) em.disk := by
  rw [getElem?_promptEmissions, getElem?_firstAgents hj, take_firstAgents hj] at he
  obtain rfl := Option.some_inj.mp he
  have hsub := firstAgents_subset hj
  have hself := mem_firstAgents.mpr ⟨Nat.succ_pos j, le_refl (j + 1)⟩
  exact ⟨rfl, hw _ (hsub hself), holds_putPrompts template hl (fun a ha => hw a (hsub ha))
    fun a ha => hx a (hsub ha)⟩

theorem Run.emission {g : Generation} (hrun : Run s d g) (hx : s.count.BelowExact) {i : Nat}
    {em : Emission} (hi : i ∈ s.count.agents) (he : g.emissions[i]? = some em) :
    ∃ template made, loadTemplate d s.template = .ok template ∧
      d.makeDirectory s.outDir = (made, none) ∧
      em.line = promptFilePath s.outDir (.ofNat i) ∧ blocked? made s.outDir i = none ∧
      Holds template s.outDir made i em.disk := by
  have hbound : ∀ a ∈ s.count.agents, a < exactBound := fun a => lt_exactBound_of_mem_agents hx
  cases hrun with
  | noTemplate ht => cases he
  | noDirectory ht hd => cases he
  | @stopped template made e n k ht hd hn hk hw hb =>
    rw [hn] at hi hbound
    obtain ⟨j, rfl⟩ : ∃ j, i = j + 1 := ⟨i - 1, by have := mem_firstAgents.mp hi; omega⟩
    rw [List.getElem?_cons_succ] at he
    have hj : j < k := by
      have hlt := (List.getElem?_eq_some_iff.mp he).1
      rwa [length_promptEmissions, length_firstAgents] at hlt
    have hsub : ∀ a ∈ firstAgents k, a < exactBound :=
      fun a ha => hbound a (firstAgents_subset hk.le ha)
    exact ⟨template, made, ht, hd, emission_of_promptEmissions (leads_of_made hd) hw hsub hj he⟩
  | @finished template made n ht hd hn hw =>
    rw [hn] at hi hbound
    obtain ⟨hone, hle⟩ := mem_firstAgents.mp hi
    obtain ⟨j, rfl⟩ : ∃ j, i = j + 1 := ⟨i - 1, by omega⟩
    have hlen : j < (promptEmissions template s.outDir made (firstAgents n)).length := by
      rw [length_promptEmissions, length_firstAgents]
      omega
    rw [List.getElem?_cons_succ, List.getElem?_append_left hlen] at he
    exact ⟨template, made, ht, hd, emission_of_promptEmissions (leads_of_made hd) hw hbound hle he⟩

end AgentPrompts.Generation
