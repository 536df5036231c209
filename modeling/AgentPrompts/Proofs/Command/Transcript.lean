import AgentPrompts.Proofs.Command.Report
import AgentPrompts.Proofs.Generation.Run
import AgentPrompts.Proofs.Prompt.Descriptor

/-! # Transcripts

In text mode standard output is a transcript of the generation. It is split into the
sections of the result at its line feeds, and the descriptors on it give back the agents
and the prompts, whatever the template holds.
-/

namespace AgentPrompts

open Number Generation

def linesOf (text : String) : List String := (text.toList.splitOn '\n').map String.ofList

theorem linesOf_append {line : String} (hline : '\n' ∉ line.toList) (text : String) :
    linesOf (line ++ "\n" ++ text) = line :: linesOf text := by
  have htext : (line ++ "\n" ++ text).toList = line.toList ++ '\n' :: text.toList := by
    simp [String.toList_append]
  rw [linesOf, htext, List.splitOn_append_cons_self_of_not_mem hline, List.map_cons,
    String.ofList_toList, linesOf]

theorem linesOf_text {lines : List String} (h : ∀ line ∈ lines, '\n' ∉ line.toList) :
    linesOf (Console.text lines) = lines ++ [""] := by
  induction lines with
  | nil => rfl
  | cons line lines ih =>
    rw [Console.text_cons, linesOf_append (h line List.mem_cons_self),
      ih fun line hl => h line (List.mem_cons_of_mem _ hl), List.cons_append]

theorem not_mem_promptFilePath {outDir : String} (hdir : '\n' ∉ outDir.toList) {n : ℕ}
    (hn : n < exactBound) : '\n' ∉ (promptFilePath outDir (.ofNat n)).toList := by
  intro h
  rcases mem_toList_joinPath _ h with h | h | h | h
  · exact absurd h (by decide)
  · exact absurd h (by decide)
  · exact hdir h
  · exact not_mem_promptFileName hn (by decide) (by decide) (by decide) h

theorem not_mem_formatInvocation (a : Number) (prompt : String) :
    '\n' ∉ (formatInvocation a prompt).toList := by
  intro h
  exact absurd (Descriptor.ge_of_mem_formatInvocation a prompt _ h) (by decide)

/-- A generation of `n` agents that succeeded in text mode, in a directory whose name has
no line feed. -/
structure TextRun (o : SpawnOptions) (h : Host) (s : Settings) (n : ℕ)
    (report : SpawnReport) : Prop where
  settings : o.settings h = .ok s
  count : s.count = .ofNat n
  exact : n < exactBound
  oneLine : '\n' ∉ s.outDir.toList
  json : o.json.isOn = false
  quiet : o.quiet.isOn = false
  dryRun : o.dryRun.isOn = false
  returned : (spawnPrompts o h).result = .ok report

/-- What is read off a transcript of `n` agents: the sections of the result, and each
descriptor with its agent and the prompt that the template gives it. -/
structure Transcript (template : String) (n : ℕ) (r : GenerateResult) (stdout : String) :
    Prop where
  lines : linesOf stdout =
    manifestHeader :: r.files ++ "" :: invocationsHeader :: r.invocations ++ [""]
  files : r.files.length = n
  invocations : r.invocations.length = n
  decoded : r.invocations.map Descriptor.decode? =
    (firstAgents n).map fun a => some (.ofNat a, renderPrompt template (.ofNat a))

section Transcripts

variable {s : Settings} {d : Disk} {n : ℕ} {r : GenerateResult}

theorem transcript_of_generate (hn : s.count = .ofNat n) (hx : n < exactBound)
    (hdir : '\n' ∉ s.outDir.toList) (hr : (generate s d).result = .ok r) :
    ∃ template, loadTemplate d s.template = .ok template ∧
      Transcript template n r (Console.text r.lines) := by
  have hbound : ∀ a ∈ firstAgents n, a < exactBound :=
    fun a ha => (mem_firstAgents.mp ha).2.trans_lt hx
  have hrun := run_generate s d (hn ▸ belowExact_ofNat.mpr hx)
  generalize generate s d = g at hrun hr
  cases hrun with
  | noTemplate => cases hr
  | noDirectory => cases hr
  | stopped => cases hr
  | @finished template made k ht _ hk _ =>
    obtain rfl := Except.ok.inj hr
    rw [hn, agents_ofNat] at hk
    have hfiles : listPromptFiles s.outDir s.count =
        (firstAgents n).map fun a => promptFilePath s.outDir (.ofNat a) := by
      rw [listPromptFiles, hn, agents_ofNat]
    rw [← hk, hfiles]
    refine ⟨template, ht, ?_, ?_, ?_, ?_⟩
    · apply linesOf_text
      simp only [GenerateResult.lines, List.forall_mem_append, List.forall_mem_cons,
        List.forall_mem_map]
      refine ⟨⟨by decide, fun a ha => ?_⟩, by decide, by decide, fun a _ => ?_⟩
      · exact not_mem_promptFilePath hdir (hbound a ha)
      · exact not_mem_formatInvocation _ _
    · simp
    · simp
    · rw [List.map_map]
      refine List.map_congr_left fun a ha => ?_
      exact Descriptor.decode?_formatInvocation (isBinary64_ofNat (hbound a ha)) _

end Transcripts

/-- The transcript of a generation is decoded without loss. -/
theorem transcript_lossless :
    (∀ o h s n report, TextRun o h s n report → ∃ r template, report = .generated r ∧
      loadTemplate h.disk s.template = .ok template ∧
      Transcript template n r (spawnPrompts o h).console.stdout) ∧
    (∀ a b p q, a.IsBinary64 → b.IsBinary64 →
      (formatInvocation a p = formatInvocation b q ↔ a = b ∧ p = q)) ∧
    ∀ a p, ∀ c ∈ (formatInvocation a p).toList, 0x20 ≤ c.toNat := by
  refine ⟨?_, ?_, Descriptor.ge_of_mem_formatInvocation⟩
  · intro o h s n report run
    have hreport := run.returned
    rw [spawnPrompts_of_settings run.settings run.dryRun] at hreport
    obtain ⟨r, hr, rfl⟩ := result_reportGeneration_eq_ok_iff.mp hreport
    obtain ⟨template, ht, htranscript⟩ :=
      transcript_of_generate run.count run.exact run.oneLine hr
    refine ⟨r, template, rfl, ht, ?_⟩
    have hout := out_reportGeneration (m := o.mode) hr (map_line_generate hr)
    simp only [SpawnOptions.mode, run.quiet, run.json] at hout
    rw [spawnPrompts_of_settings run.settings run.dryRun, Console.stdout]
    simpa [SpawnOptions.mode, run.quiet, run.json, hout] using htranscript
  · intro a b p q ha hb
    exact Descriptor.formatInvocation_inj ha hb

/-- A template that imitates the end of a quoted text, a section and a descriptor. -/
def forgery : String :=
  "\"), \\\x07\n\n# Task tool calls\nTask(description=\"Agent 9 process\", prompt=\"\x7bN\x7d"

theorem transcript_lossless_forgery :
    let h : Host := ⟨⟨.directory [("t", .file (Utf8.encode forgery))], []⟩, {}⟩
    let o : SpawnOptions := { count := .text "2", template := .text "t", outDir := .text "o" }
    (∃ r, TextRun o h ⟨.ofNat 2, "t", "o"⟩ 2 (.generated r) ∧
      Transcript forgery 2 r (spawnPrompts o h).console.stdout) ∧
    formatInvocation (.ofNat 1) forgery ≠ formatInvocation (.finite (1 / 2)) forgery := by
  intro h o
  have hsettings : (o.settings h).toOption = some ⟨.ofNat 2, "t", "o"⟩ := by decide +kernel
  obtain ⟨report, hreport⟩ : ∃ report, (spawnPrompts o h).result = .ok report :=
    exists_of_isOk (by decide +kernel)
  have run : TextRun o h ⟨.ofNat 2, "t", "o"⟩ 2 report :=
    { settings := by
        cases hs : o.settings h with
        | error f => rw [hs] at hsettings; cases hsettings
        | ok s => rw [hs] at hsettings; rw [Option.some_inj.mp hsettings]
      count := rfl
      exact := by decide
      oneLine := by decide
      json := rfl
      quiet := rfl
      dryRun := rfl
      returned := hreport }
  obtain ⟨r, template, rfl, ht, htranscript⟩ := transcript_lossless.1 _ _ _ _ _ run
  have htemplate : template = forgery := by
    have : (loadTemplate h.disk "t").toOption = some forgery := by decide +kernel
    rw [ht] at this
    exact Option.some_inj.mp this
  refine ⟨⟨r, run, htemplate ▸ htranscript⟩, fun hsame => ?_⟩
  have hhalf : (finite (1 / 2)).IsBinary64 :=
    show nearest (1 / 2) = finite (1 / 2) by decide +kernel
  have hagents := (transcript_lossless.2.1 _ _ _ _ (isBinary64_ofNat (by decide)) hhalf).mp hsame
  exact absurd hagents.1 (by decide +kernel)

end AgentPrompts
