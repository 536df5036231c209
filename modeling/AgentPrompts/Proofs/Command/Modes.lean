import AgentPrompts.Proofs.Command.Report
import AgentPrompts.Proofs.Generation.Failing

/-! # Output modes

The output mode of a generation decides what is printed and nothing else. In text mode the
lines appear one by one, and together they are the formatted result.
-/

namespace AgentPrompts

def SpawnOptions.inMode (o : SpawnOptions) (json quiet : Value) : SpawnOptions :=
  { o with json := json, quiet := quiet }

/-- A run in the mode that two switches ask for: it does the same as in any other mode, and
prints what the mode wants. -/
structure OnlyPrinted (o : SpawnOptions) (h : Host) (json quiet : Value) : Prop where
  result : ∀ json' quiet', (spawnPrompts (o.inMode json' quiet') h).result =
    (spawnPrompts (o.inMode json quiet) h).result
  disk : ∀ json' quiet', (spawnPrompts (o.inMode json' quiet') h).disk =
    (spawnPrompts (o.inMode json quiet) h).disk
  finished : o.dryRun.isOn = false → ∀ report,
    (spawnPrompts (o.inMode json quiet) h).result = .ok report →
    ∃ r, report = .generated r ∧ (spawnPrompts (o.inMode json quiet) h).console.stdout =
      if quiet.isOn then "" else if json.isOn then r.toJson.pretty ++ "\n"
      else formatGenerateResult r ++ "\n"
  remarks : json.isOn ∨ quiet.isOn → (spawnPrompts (o.inMode json quiet) h).console.stderr = ""
  failed : json.isOn ∨ quiet.isOn →
    ∀ f, (spawnPrompts (o.inMode json quiet) h).result = .error f →
      (spawnPrompts (o.inMode json quiet) h).console.stdout = ""

section Modes

variable {o : SpawnOptions} {h : Host} {s : Settings} {f : Failure}

theorem onlyPrinted_of_error (hs : o.settings h = .error f) (json quiet : Value) :
    OnlyPrinted o h json quiet := by
  have hrun : ∀ j q, spawnPrompts (o.inMode j q) h = ⟨{}, h.disk, .error f⟩ :=
    fun j q => spawnPrompts_of_error hs
  constructor <;> simp [hrun]

theorem onlyPrinted_of_dryRun (hs : o.settings h = .ok s) (hdry : o.dryRun.isOn = true)
    (json quiet : Value) : OnlyPrinted o h json quiet := by
  have hrun : ∀ j q, spawnPrompts (o.inMode j q) h =
      ⟨OutputMode.output ⟨j.isOn, q.isOn⟩ (planGeneration s).toJson
        (formatPlan (planGeneration s)), h.disk, .ok (.planned (planGeneration s))⟩ :=
    fun j q => spawnPrompts_of_dryRun hs hdry
  constructor <;> simp [hrun, hdry, Console.stderr, OutputMode.err_output]

theorem onlyPrinted_of_settings (hs : o.settings h = .ok s) (hdry : o.dryRun.isOn = false)
    (json quiet : Value) : OnlyPrinted o h json quiet := by
  have hrun : ∀ j q, spawnPrompts (o.inMode j q) h =
      reportGeneration ⟨j.isOn, q.isOn⟩ (generate s h.disk) :=
    fun j q => spawnPrompts_of_settings hs hdry
  have hsilent : json.isOn ∨ quiet.isOn → OutputMode.isChatty ⟨json.isOn, quiet.isOn⟩ = false :=
    fun hm => OutputMode.isChatty_of_silent hm
  refine ⟨?_, ?_, ?_, ?_, ?_⟩
  · intro json' quiet'
    rw [hrun, hrun, result_reportGeneration, result_reportGeneration]
  · intro json' quiet'
    rw [hrun, hrun, disk_reportGeneration, disk_reportGeneration]
  · intro _ report hreport
    rw [hrun] at hreport ⊢
    obtain ⟨r, hr, rfl⟩ := result_reportGeneration_eq_ok_iff.mp hreport
    exact ⟨r, rfl, stdout_reportGeneration hr (Generation.map_line_generate hr)⟩
  · intro hm
    rw [hrun, stderr_reportGeneration (hsilent hm)]
  · intro hm f hf
    rw [hrun] at hf ⊢
    rw [console_reportGeneration_of_error (result_reportGeneration_eq_error_iff.mp hf) (hsilent hm),
      Console.stdout_empty]

end Modes

/-- A run does the same in every output mode, and in text mode its lines are the formatted
result. -/
theorem onlyPrinted (o : SpawnOptions) (h : Host) (json quiet : Value) :
    OnlyPrinted o h json quiet := by
  cases hs : o.settings h with
  | error f => exact onlyPrinted_of_error hs json quiet
  | ok s =>
    cases hdry : o.dryRun.isOn with
    | true => exact onlyPrinted_of_dryRun hs hdry json quiet
    | false => exact onlyPrinted_of_settings hs hdry json quiet

/-- One prompt is generated; of two the first is written and printed before the run fails. -/
theorem onlyPrinted_obstructed :
    let h : Host := ⟨Generation.obstructed, {}⟩
    let one : SpawnOptions := { count := .text "1", template := .text "t", outDir := .text "o" }
    let two : SpawnOptions := { one with count := .number (.ofNat 2) }
    (∃ r, (spawnPrompts (one.inMode .absent .null) h).result = .ok (.generated r) ∧
      (spawnPrompts (one.inMode .absent .null) h).console.stdout =
        formatGenerateResult r ++ "\n") ∧
    (spawnPrompts (two.inMode .absent .null) h).console.stdout =
      "# Generated prompts\no/agent_01.md\n" ∧
    (spawnPrompts (two.inMode (.text "false") .null) h).console.stdout = "" := by
  intro h one two
  obtain ⟨report, hreport⟩ :
      ∃ report, (spawnPrompts (one.inMode .absent .null) h).result = .ok report :=
    Generation.exists_of_isOk (by decide +kernel)
  obtain ⟨r, rfl, hout⟩ := (onlyPrinted one h .absent .null).finished rfl report hreport
  obtain ⟨f, hf⟩ : ∃ f, (spawnPrompts (two.inMode (.text "false") .null) h).result = .error f :=
    Generation.exists_of_not_isOk (by decide +kernel)
  have hjson := onlyPrinted two h (.text "false") .null
  exact ⟨⟨r, hreport, hout⟩, by decide +kernel, hjson.failed (Or.inl rfl) f hf⟩

end AgentPrompts
