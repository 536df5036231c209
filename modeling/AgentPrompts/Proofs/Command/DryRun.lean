import AgentPrompts.Proofs.Command.Report
import AgentPrompts.Proofs.Generation.Changes
import AgentPrompts.Proofs.Generation.Failing

/-! # Dry runs

A dry run touches nothing and tells what the same run does without it: it fails where the
settings cannot be resolved, and then so does the run, and else its plan names every file
that the run changes, also when the run fails halfway.
-/

namespace AgentPrompts

open Generation Number

/-- What a dry run tells of a run with the same settings. -/
structure Predicts (h : Host) (settings : Except Failure Settings) (dry real : Outcome SpawnReport) :
    Prop where
  unchanged : dry.disk = h.disk
  failed : ∀ f, dry.result = .error f ↔ settings = .error f
  failedAlike : ∀ f, dry.result = .error f → real.result = .error f
  planned : ∀ report, dry.result = .ok report → ∃ plan, report = .planned plan ∧
    (∀ l, real.disk.node? l = h.disk.node? l ∨
      h.disk.node? l = none ∧ real.disk.node? l = some .directory ∨
      ∃ path ∈ plan.files, real.disk.locate path = .ok l ∧
        ∃ content, real.disk.node? l = some (.file content)) ∧
    ∀ report', real.result = .ok report' → ∃ r, report' = .generated r ∧ r.files = plan.files ∧
      ∀ path ∈ plan.files, ∃ content, real.disk.readFile path = .ok content

section Plan

variable {s : Settings} {d : Disk} {g : Generation}

theorem files_of_returned {r : GenerateResult} (hrun : Run s d g) (hr : g.result = .ok r) :
    r.files = (planGeneration s).files := by
  cases hrun with
  | finished ht hd hn hw =>
    obtain rfl := Except.ok.inj hr
    rfl
  | _ => cases hr

theorem mem_files_planGeneration {path : String} : path ∈ (planGeneration s).files ↔
    ∃ i ∈ s.count.agents, promptFilePath s.outDir (.ofNat i) = path := List.mem_map

end Plan

/-- A dry run predicts the run without it. -/
theorem dryRun_predicts {o : SpawnOptions} {h : Host} {on off : Value} (hon : on.isOn = true)
    (hoff : off.isOn = false) (hx : ∀ s, o.settings h = .ok s → s.count.BelowExact) :
    Predicts h (o.settings h) (spawnPrompts { o with dryRun := on } h)
      (spawnPrompts { o with dryRun := off } h) := by
  cases hs : o.settings h with
  | error f =>
    have hdry := spawnPrompts_of_error (o := { o with dryRun := on }) hs
    have hreal := spawnPrompts_of_error (o := { o with dryRun := off }) hs
    rw [hdry, hreal]
    exact
      { unchanged := rfl
        failed := fun f' => by simp
        failedAlike := fun f' hf => hf
        planned := fun report hreport => by cases hreport }
  | ok s =>
    have hdry := spawnPrompts_of_dryRun (o := { o with dryRun := on }) hs hon
    have hreal := spawnPrompts_of_settings (o := { o with dryRun := off }) hs hoff
    have hrun := run_generate s h.disk (hx s hs)
    rw [hdry, hreal]
    refine
      { unchanged := rfl
        failed := fun f' => by simp
        failedAlike := fun f' hf => by cases hf
        planned := fun report hreport => ⟨planGeneration s, ?_, ?_, ?_⟩ }
    · exact (Except.ok.inj hreport).symm
    · intro l
      rw [disk_reportGeneration]
      rcases hrun.node_cases (hx s hs) l with he | hdir | ⟨i, hi, hfile⟩
      · exact Or.inl he
      · exact Or.inr (Or.inl hdir)
      · exact Or.inr (Or.inr ⟨_, mem_files_planGeneration.mpr ⟨i, hi, rfl⟩, hfile⟩)
    · intro report' hreport'
      obtain ⟨r, hr, rfl⟩ := result_reportGeneration_eq_ok_iff.mp hreport'
      refine ⟨r, rfl, files_of_returned hrun hr, fun path hpath => ?_⟩
      obtain ⟨i, hi, rfl⟩ := mem_files_planGeneration.mp hpath
      rw [disk_reportGeneration]
      exact hrun.readFile_of_returned (hx s hs) hr hi

/-- The run fails at its second prompt file, after writing the first. -/
theorem dryRun_predicts_obstructed :
    let h : Host := ⟨obstructed, {}⟩
    let o : SpawnOptions :=
      { count := .number (.ofNat 2), template := .text "t", outDir := .text "o" }
    let dry := spawnPrompts { o with dryRun := .text "true" } h
    let real := spawnPrompts { o with dryRun := .text "" } h
    (∀ s, o.settings h = .ok s → s.count.BelowExact) ∧ dry.result.isOk = true ∧
      real.result.isOk = false ∧ real.disk.node? ["o", "agent_01.md"] = some (.file [65]) ∧
      Predicts h (o.settings h) dry real := by
  intro h o dry real
  have hsettings : (o.settings h).toOption = some ⟨.ofNat 2, "t", "o"⟩ := by decide +kernel
  have hx : ∀ s, o.settings h = .ok s → s.count.BelowExact := by
    intro s hs
    rw [hs] at hsettings
    obtain rfl := Option.some_inj.mp hsettings
    exact belowExact_ofNat.mpr (by decide)
  exact ⟨hx, by decide +kernel, by decide +kernel, by decide +kernel, dryRun_predicts rfl rfl hx⟩

end AgentPrompts
