import AgentPrompts.Proofs.Command.Report
import AgentPrompts.Proofs.Generation.Progress
import AgentPrompts.Proofs.Prompt.Descriptor
import AgentPrompts.Proofs.Settings.Resolution

/-! # Shown prompts

The prompt of an agent is shown as a generation with the same template and project writes
it, without writing anything. The agent may be given by its number or by its digits.
-/

namespace AgentPrompts

open Generation Number

def SpawnOptions.showing (o : SpawnOptions) (id json quiet : Value) : PromptOptions :=
  ⟨id, o.template, o.project, json, quiet⟩

/-- The values that name an agent: its number and its decimal digits. -/
def NamesAgent (i : Nat) (id : Value) : Prop := id = .number (.ofNat i) ∨ id = .text (toString i)

/-- The prompt of an agent, as a generation has written and stated it. -/
structure Spawned (left : Disk) (r : GenerateResult) (i : Nat) (prompt : String) : Prop where
  file : ∃ path, r.files[i - 1]? = some path ∧ left.readFile path = .ok (Utf8.encode prompt)
  descriptor : ∃ line, r.invocations[i - 1]? = some line ∧
    Descriptor.decode? line = some (.ofNat i, prompt)

theorem getElem?_of_mem_firstAgents {i n : Nat} (hi : i ∈ firstAgents n) :
    (firstAgents n)[i - 1]? = some i := by
  obtain ⟨h₁, h₂⟩ := mem_firstAgents.mp hi
  rw [getElem?_firstAgents (by omega), Nat.sub_add_cancel h₁]

theorem spawned_of_generate {s : Settings} {d : Disk} {r : GenerateResult} {n : Nat}
    (hc : s.count = .ofNat n) (hx : s.count.BelowExact) (hr : (generate s d).result = .ok r) :
    ∃ template, loadTemplate d s.template = .ok template ∧ r.count = .ofNat n ∧
      ∀ i ∈ firstAgents n,
        Spawned (generate s d).disk r i (renderPrompt template (.ofNat i)) := by
  have hagents : s.count.agents = firstAgents n := by rw [hc, agents_ofNat]
  have hbound : ∀ a ∈ firstAgents n, a < exactBound :=
    fun a ha => lt_exactBound_of_mem_agents hx (hagents ▸ ha)
  obtain ⟨template, made, ht, hd, hw, hg⟩ := (run_generate s d hx).eq_unhindered hr hagents
  rw [hg] at hr ⊢
  obtain rfl := Except.ok.inj hr
  refine ⟨template, ht, hc, fun i hi => ?_⟩
  have hget := getElem?_of_mem_firstAgents hi
  exact
    { file := by
        refine ⟨promptFilePath s.outDir (.ofNat i), ?_,
          readFile_unhindered (leads_of_made hd) hbound hw template hi⟩
        simp only [listPromptFiles, hagents, List.getElem?_map, hget, Option.map_some]
      descriptor := by
        refine ⟨formatInvocation (.ofNat i) (renderPrompt template (.ofNat i)), ?_,
          Descriptor.decode?_formatInvocation (isBinary64_ofNat (hbound i hi)) _⟩
        simp only [List.getElem?_map, hget, Option.map_some] }

section Agents

variable {i n : Nat}

theorem parseCount_number (flag : String) (n : Nat) :
    parseCount flag (.number (.ofNat n)) = .ok (.ofNat n) := by
  rw [parseCount]
  simp only [nat?_ofNat, Option.isSome_some, if_true]

theorem ofText_toString (hn : n < exactBound) : ofText (toString n) = .ofNat n := by
  have htext : (Number.ofNat n).text = toString n := text_ofNat hn
  rw [← htext, ofText_text (isBinary64_ofNat hn)]

theorem parseCount_text (flag : String) (hn : n < exactBound) :
    parseCount flag (.text (toString n)) = .ok (.ofNat n) := by
  have hdigits : (toString n).toList = Nat.toDigits 10 n := String.toList_ofList
  have htrim : trimBlanks (toString n).toList = Nat.toDigits 10 n := by
    rw [hdigits]
    exact trimBlanks_of_isWritten fun c hc => Or.inl (Numeral.isDigit_toDigits hc)
  have hne : (Nat.toDigits 10 n).isEmpty = false := by
    simp [Nat.toDigits_ne_nil]
  rw [parseCount]
  simp only [htrim, hne, Bool.false_eq_true, if_false, ofText_toString hn, nat?_ofNat,
    Option.isSome_some, if_true]

theorem ofNat_ne_zero (hi : 1 ≤ i) : Number.ofNat i ≠ .zero := by
  rw [ofNat, zero]
  intro h
  have hq : (i : Rat) = 0 := Number.finite.inj h
  have : i = 0 := by exact_mod_cast hq
  omega

theorem agent_of_namesAgent {o : PromptOptions} (h : NamesAgent i o.id) (hi : 1 ≤ i)
    (hx : i < exactBound) : o.agent = .ok (.ofNat i) := by
  have hid : o.id.isAbsent = false ∧ parseCount "--id" o.id = .ok (.ofNat i) := by
    rcases h with h | h <;> rw [h]
    · exact ⟨rfl, parseCount_number _ i⟩
    · exact ⟨rfl, parseCount_text _ hx⟩
  rw [PromptOptions.agent, hid.1, hid.2]
  exact if_neg (ofNat_ne_zero hi)

end Agents

section Settings

variable {o : SpawnOptions} {h : Host} {s : Settings} {template : String} {id : Value} {i : Nat}

theorem report_showing (hcount : o.count = .absent) (hdir : o.outDir = .absent)
    (hs : o.settings h = .ok s) (ht : loadTemplate h.disk s.template = .ok template)
    (hid : NamesAgent i id) (hi : 1 ≤ i) (hx : i < exactBound) (json quiet : Value) :
    (o.showing id json quiet).report h = .ok ⟨.ofNat i, renderPrompt template (.ofNat i)⟩ := by
  have hagent : (o.showing id json quiet).agent = .ok (.ofNat i) := agent_of_namesAgent hid hi hx
  rw [SpawnOptions.settings, hcount, hdir] at hs
  obtain ⟨count, hnone, hs⟩ := exists_of_bind_eq_ok hs
  obtain rfl : Value.absent = count := Except.ok.inj hnone
  obtain ⟨project, hproject, hs⟩ := exists_of_bind_eq_ok hs
  rw [PromptOptions.report, hagent, SpawnOptions.showing, hproject]
  simp only [bind, Except.bind, hs, ht]
  rfl

end Settings

/-- A run that writes prompts writes those that are shown. -/
theorem shown_of_spawned {o : SpawnOptions} {h : Host} {report : SpawnReport}
    (hcount : o.count = .absent) (hdir : o.outDir = .absent) (hdry : o.dryRun.isOn = false)
    (hx : ∀ s, o.settings h = .ok s → s.count.BelowExact)
    (hr : (spawnPrompts o h).result = .ok report) :
    ∃ r n, report = .generated r ∧ r.count = .ofNat n ∧ ∀ i ∈ firstAgents n,
      ∃ prompt, Spawned (spawnPrompts o h).disk r i prompt ∧
        ∀ id json quiet, NamesAgent i id →
          (showPrompt (o.showing id json quiet) h).result = .ok ⟨.ofNat i, prompt⟩ ∧
          (showPrompt (o.showing id json quiet) h).disk = h.disk := by
  cases hs : o.settings h with
  | error f =>
    rw [spawnPrompts_of_error hs] at hr
    cases hr
  | ok s =>
    rw [spawnPrompts_of_settings hs hdry] at hr ⊢
    obtain ⟨r, hresult, rfl⟩ := result_reportGeneration_eq_ok_iff.mp hr
    obtain ⟨n, hn⟩ := (usable_of_settings hs).count
    obtain ⟨template, ht, hcounted, hspawned⟩ := spawned_of_generate hn (hx s hs) hresult
    refine ⟨r, n, rfl, hcounted, fun i hi => ?_⟩
    refine ⟨renderPrompt template (.ofNat i), ?_, fun id json quiet hid => ?_⟩
    · rw [disk_reportGeneration]
      exact hspawned i hi
    · obtain ⟨h₁, h₂⟩ := mem_firstAgents.mp hi
      have hbound : i < exactBound := h₂.trans_lt (belowExact_ofNat.mp (hn ▸ hx s hs))
      have hreport := report_showing hcount hdir hs ht hid h₁ hbound json quiet
      rw [showPrompt, hreport]
      exact ⟨rfl, rfl⟩

def configured : Disk :=
  ⟨.directory [(".swarmrc", .file (Utf8.encode "\x7b\"outDir\":\"o\"\x7d")),
    ("o", .directory [("agent_01.md", .file (Utf8.encode "A\x7bN\x7d"))])], []⟩

/-- The template is overwritten by the first prompt, and shown before it is. -/
theorem shown_of_spawned_configured :
    let h : Host := ⟨configured, { agentCount := some " 2 " }⟩
    let o : SpawnOptions := { template := .text "o/agent_01.md" }
    (spawnPrompts o h).disk.readFile "o/agent_01.md" = .ok (Utf8.encode "A1") ∧
    ∃ report, (spawnPrompts o h).result = .ok report ∧ ∃ r n, report = .generated r ∧
      r.count = .ofNat n ∧ ∀ i ∈ firstAgents n,
        ∃ prompt, Spawned (spawnPrompts o h).disk r i prompt ∧
          ∀ id json quiet, NamesAgent i id →
            (showPrompt (o.showing id json quiet) h).result = .ok ⟨.ofNat i, prompt⟩ ∧
            (showPrompt (o.showing id json quiet) h).disk = h.disk := by
  intro h o
  have hsettings : (o.settings h).toOption = some ⟨.ofNat 2, "o/agent_01.md", "o"⟩ := by
    decide +kernel
  have hx : ∀ s, o.settings h = .ok s → s.count.BelowExact := by
    intro s hs
    rw [hs] at hsettings
    obtain rfl := Option.some_inj.mp hsettings
    exact belowExact_ofNat.mpr (by decide)
  obtain ⟨report, hr⟩ : ∃ report, (spawnPrompts o h).result = .ok report :=
    exists_of_isOk (by decide +kernel)
  exact ⟨by decide +kernel, report, hr, shown_of_spawned rfl rfl rfl hx hr⟩

end AgentPrompts
