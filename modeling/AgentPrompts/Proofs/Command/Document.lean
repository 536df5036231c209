import AgentPrompts.Proofs.Command.Report
import AgentPrompts.Proofs.Json.RoundTrip
import AgentPrompts.Proofs.Settings.Count

/-! # Results as documents

In JSON mode standard output is one document and a line feed. The document is read back, and
what was returned is found in it again, whatever the template, the paths and the prompts hold.
-/

namespace AgentPrompts

open Number

namespace Json

def number? : Json → Option Number
  | .number x => some x
  | _ => none

def text? : Json → Option String
  | .text s => some s
  | _ => none

def items? : Json → Option (List Json)
  | .list vs => some vs
  | _ => none

def numberAt? (name : String) (v : Json) : Option Number := (v.member? name).bind number?

def textAt? (name : String) (v : Json) : Option String := (v.member? name).bind text?

def itemsAt? (name : String) (v : Json) : Option (List Json) := (v.member? name).bind items?

def textsAt? (name : String) (v : Json) : Option (List String) :=
  (v.itemsAt? name).bind fun vs => vs.mapM text?

section Members

variable {ms : Members Json} {name : String}

theorem numberAt?_record {x : Number} (h : Members.get? name ms = some (.number x)) :
    numberAt? name (.record ms) = some x := by
  rw [numberAt?, member?, h]
  rfl

theorem textAt?_record {s : String} (h : Members.get? name ms = some (.text s)) :
    textAt? name (.record ms) = some s := by
  rw [textAt?, member?, h]
  rfl

theorem itemsAt?_record {vs : List Json} (h : Members.get? name ms = some (.list vs)) :
    itemsAt? name (.record ms) = some vs := by
  rw [itemsAt?, member?, h]
  rfl

theorem mapM_map {α β : Type} {write : α → β} {read : β → Option α}
    (h : ∀ a, read (write a) = some a) (as : List α) : (as.map write).mapM read = some as := by
  induction as with
  | nil => rfl
  | cons a as ih =>
    rw [List.map_cons, List.mapM_cons, h, ih]
    rfl

theorem textsAt?_record {ss : List String} (h : Members.get? name ms = some (.texts ss)) :
    textsAt? name (.record ms) = some ss := by
  have hread : ∀ s, text? (.text s) = some s := fun _ => rfl
  rw [textsAt?, itemsAt?_record h]
  exact mapM_map hread ss

theorem isPlain_texts (ss : List String) : IsPlain (.texts ss) :=
  .list (List.forall_mem_map.mpr fun s _ => .text s)

end Members

end Json

namespace GenerateResult

def ofJson? (v : Json) : Option GenerateResult := do
  pure {
    count := ← v.numberAt? "count"
    template := ← v.textAt? "template"
    outDir := ← v.textAt? "outDir"
    files := ← v.textsAt? "files"
    invocations := ← v.textsAt? "invocations" }

theorem ofJson?_toJson (r : GenerateResult) : ofJson? r.toJson = some r := by
  rw [ofJson?, toJson, Json.numberAt?_record rfl, Json.textAt?_record rfl, Json.textAt?_record rfl,
    Json.textsAt?_record rfl, Json.textsAt?_record rfl]
  rfl

theorem isPlain_toJson {r : GenerateResult} {n : ℕ} (hn : r.count = .ofNat n)
    (h : n < exactBound) : r.toJson.IsPlain := by
  rw [toJson, hn]
  refine .of_names ["count", "template", "outDir", "files", "invocations"] rfl (by decide)
    (by decide) ?_
  simpa using ⟨Json.IsPlain.number h, Json.IsPlain.text _, Json.IsPlain.text _,
    Json.isPlain_texts _, Json.isPlain_texts _⟩

end GenerateResult

namespace GenerationPlan

def actionOf? (s : String) : Option PlanAction :=
  [PlanAction.readTemplate, .writePrompts].find? fun action => action.text = s

def stepOf? (v : Json) : Option PlanStep := do
  pure {
    step := ← v.numberAt? "step"
    action := ← (v.textAt? "action").bind actionOf?
    target := ← v.textAt? "target" }

def ofJson? (v : Json) : Option GenerationPlan := do
  pure {
    count := ← v.numberAt? "count"
    template := ← v.textAt? "template"
    outDir := ← v.textAt? "outDir"
    steps := ← (v.itemsAt? "steps").bind fun vs => vs.mapM stepOf?
    files := ← v.textsAt? "files" }

theorem actionOf?_text (action : PlanAction) : actionOf? action.text = some action := by
  cases action <;> rfl

theorem ofJson?_toJson (p : GenerationPlan) : ofJson? p.toJson = some p := by
  rw [ofJson?, toJson, Json.numberAt?_record rfl, Json.textAt?_record rfl, Json.textAt?_record rfl,
    Json.itemsAt?_record rfl, Json.textsAt?_record rfl, Option.bind_some, Json.mapM_map]
  · rfl
  · intro step
    rw [stepOf?, Json.numberAt?_record rfl, Json.textAt?_record rfl, Json.textAt?_record rfl,
      Option.bind_some, actionOf?_text]
    rfl

theorem isPlain_toJson {p : GenerationPlan} {n : ℕ} (hn : p.count = .ofNat n)
    (h : n < exactBound) (hsteps : ∀ s ∈ p.steps, ∃ k < exactBound, s.step = .ofNat k) :
    p.toJson.IsPlain := by
  have hstep : ∀ s ∈ p.steps, Json.IsPlain (.record
      [("step", .number s.step), ("action", .text s.action.text), ("target", .text s.target)]) := by
    intro s hs
    obtain ⟨k, hk, hstep⟩ := hsteps s hs
    rw [hstep]
    refine .of_names ["step", "action", "target"] rfl (by decide) (by decide) ?_
    simpa using ⟨Json.IsPlain.number hk, Json.IsPlain.text _, Json.IsPlain.text _⟩
  rw [toJson, hn]
  refine .of_names ["count", "template", "outDir", "steps", "files"] rfl (by decide)
    (by decide) ?_
  simpa using ⟨Json.IsPlain.number h, Json.IsPlain.text _, Json.IsPlain.text _,
    Json.IsPlain.list (List.forall_mem_map.mpr hstep), Json.isPlain_texts _⟩

end GenerationPlan

namespace SpawnReport

def count : SpawnReport → Number
  | generated r => r.count
  | planned p => p.count

def ofJson? (v : Json) : Option SpawnReport :=
  if (v.member? "steps").isSome then (GenerationPlan.ofJson? v).map planned
  else (GenerateResult.ofJson? v).map generated

theorem ofJson?_toJson (report : SpawnReport) : ofJson? report.toJson = some report := by
  cases report with
  | generated r =>
    rw [toJson, ofJson?, if_neg (by rintro ⟨⟩), GenerateResult.ofJson?_toJson]
    rfl
  | planned p =>
    have hsteps : (p.toJson.member? "steps").isSome = true := rfl
    rw [toJson, ofJson?, if_pos hsteps, GenerationPlan.ofJson?_toJson]
    rfl

end SpawnReport

namespace PromptReport

def ofJson? (v : Json) : Option PromptReport := do
  pure {
    agentId := ← v.numberAt? "agentId"
    prompt := ← v.textAt? "prompt" }

theorem ofJson?_toJson (r : PromptReport) : ofJson? r.toJson = some r := by
  rw [ofJson?, toJson, Json.numberAt?_record rfl, Json.textAt?_record rfl]
  rfl

theorem isPlain_toJson {r : PromptReport} {n : ℕ} (hn : r.agentId = .ofNat n)
    (h : n < exactBound) : r.toJson.IsPlain := by
  rw [toJson, hn]
  refine .of_names ["agentId", "prompt"] rfl (by decide) (by decide) ?_
  simpa using ⟨Json.IsPlain.number h, Json.IsPlain.text _⟩

end PromptReport

/-- Standard output that is one document and a line feed, where the document holds `a`. -/
def Holds {α : Type} (toJson : α → Json) (ofJson? : Json → Option α) (stdout : String) (a : α) :
    Prop :=
  ∃ document, stdout = document ++ "\n" ∧ Json.parse? document = some (toJson a) ∧
    ofJson? (toJson a) = some a

theorem OutputMode.stdout_output {m : OutputMode} (hjson : m.json = true) (hquiet : m.quiet = false)
    (document : Json) (plain : String) :
    (m.output document plain).stdout = document.pretty ++ "\n" := by
  simp [output, hjson, hquiet, Console.stdout]

section Commands

variable {h : Host} {s : Settings}

theorem Generation.count_of_generate {d : Disk} {r : GenerateResult}
    (hr : (generate s d).result = .ok r) : r.count = s.count := by
  rw [generate] at hr
  split at hr
  next => cases hr
  next =>
    split at hr
    next => cases hr
    next =>
      simp only [writeAndState] at hr
      split at hr
      next => cases hr
      next =>
        split at hr
        next => cases hr
        next => rw [← Except.ok.inj hr]

theorem holds_planned {o : SpawnOptions} (hs : s.Usable) (hx : s.count.BelowExact)
    (hjson : o.json.isOn = true) (hquiet : o.quiet.isOn = false) :
    Holds SpawnReport.toJson SpawnReport.ofJson?
      (o.mode.output (planGeneration s).toJson (formatPlan (planGeneration s))).stdout
      (.planned (planGeneration s)) := by
  obtain ⟨n, hn⟩ := hs.count
  rw [hn] at hx
  have hsteps : ∀ step ∈ (planGeneration s).steps, ∃ k < exactBound, step.step = .ofNat k := by
    simp only [planGeneration, List.forall_mem_cons]
    exact ⟨⟨1, by decide, rfl⟩, ⟨2, by decide, rfl⟩, by simp⟩
  have hplain := GenerationPlan.isPlain_toJson hn (belowExact_ofNat.mp hx) hsteps
  exact ⟨_, OutputMode.stdout_output hjson hquiet _ _, Json.parse?_pretty hplain,
    SpawnReport.ofJson?_toJson _⟩

theorem holds_generated {o : SpawnOptions} {r : GenerateResult} (hs : s.Usable)
    (hr : (generate s h.disk).result = .ok r) (hx : r.count.BelowExact)
    (hjson : o.json.isOn = true) (hquiet : o.quiet.isOn = false) :
    Holds SpawnReport.toJson SpawnReport.ofJson?
      (reportGeneration o.mode (generate s h.disk)).console.stdout (.generated r) := by
  obtain ⟨n, hn⟩ := hs.count
  have hcount := (Generation.count_of_generate hr).trans hn
  rw [hcount] at hx
  have hout := stdout_reportGeneration (m := o.mode) hr (Generation.map_line_generate hr)
  rw [if_neg (by simp [SpawnOptions.mode, hquiet]), if_pos (show o.mode.json = true from hjson)] at hout
  exact ⟨_, hout, Json.parse?_pretty (GenerateResult.isPlain_toJson hcount (belowExact_ofNat.mp hx)),
    SpawnReport.ofJson?_toJson _⟩

theorem PromptOptions.exists_of_agent {o : PromptOptions} {x : Number} (hx : o.agent = .ok x) :
    ∃ n, x = .ofNat n := by
  have hnatural : ∀ {n : ℕ} {y : Number}, y = .ofNat n →
      (if y = .zero then throw (.configuration (.agentBelowOne y.text)) else pure y) =
        (.ok x : Except Failure Number) → ∃ n, x = .ofNat n := by
    intro n y hy hx
    split at hx
    next => cases hx
    next => exact ⟨n, (Except.ok.inj hx).symm.trans hy⟩
  rw [agent] at hx
  split at hx
  all_goals obtain ⟨y, hy, hx⟩ := exists_of_bind_eq_ok hx
  · exact hnatural (Except.ok.inj hy).symm hx
  · obtain ⟨n, -, hn⟩ := parseCount_eq_ok_iff.mp hy
    exact hnatural hn hx

theorem holds_shown {o : PromptOptions} {r : PromptReport} (hr : o.report h = .ok r)
    (hx : r.agentId.BelowExact) (hjson : o.json.isOn = true) (hquiet : o.quiet.isOn = false) :
    Holds PromptReport.toJson PromptReport.ofJson? (o.mode.output r.toJson r.prompt).stdout r := by
  obtain ⟨agent, _, template, hagent, -, -, rfl⟩ := PromptOptions.exists_of_report hr
  obtain ⟨n, rfl⟩ := PromptOptions.exists_of_agent hagent
  have hplain := PromptReport.isPlain_toJson (r := ⟨.ofNat n, renderPrompt template (.ofNat n)⟩) rfl
    (belowExact_ofNat.mp hx)
  exact ⟨_, OutputMode.stdout_output hjson hquiet _ _, Json.parse?_pretty hplain,
    PromptReport.ofJson?_toJson _⟩

end Commands

/-- In JSON mode what a command returns is printed as one document that holds it. -/
theorem stdout_holds_report (h : Host) :
    (∀ (o : SpawnOptions) (report : SpawnReport), o.json.isOn = true → o.quiet.isOn = false →
      (spawnPrompts o h).result = .ok report → report.count.BelowExact →
      Holds SpawnReport.toJson SpawnReport.ofJson? (spawnPrompts o h).console.stdout report) ∧
    ∀ (o : PromptOptions) (report : PromptReport), o.json.isOn = true → o.quiet.isOn = false →
      (showPrompt o h).result = .ok report → report.agentId.BelowExact →
      Holds PromptReport.toJson PromptReport.ofJson? (showPrompt o h).console.stdout report := by
  constructor
  · intro o report hjson hquiet hreport hx
    cases hs : o.settings h with
    | error f =>
      rw [spawnPrompts_of_error hs] at hreport
      cases hreport
    | ok s =>
      have husable := usable_of_settings hs
      cases hdry : o.dryRun.isOn with
      | true =>
        rw [spawnPrompts_of_dryRun hs hdry] at hreport ⊢
        obtain rfl := Except.ok.inj hreport
        exact holds_planned husable hx hjson hquiet
      | false =>
        rw [spawnPrompts_of_settings hs hdry] at hreport ⊢
        obtain ⟨r, hr, rfl⟩ := result_reportGeneration_eq_ok_iff.mp hreport
        exact holds_generated husable hr hx hjson hquiet
  · intro o report hjson hquiet hreport hx
    cases hr : o.report h with
    | error f =>
      rw [showPrompt, hr] at hreport
      cases hreport
    | ok r =>
      rw [showPrompt, hr] at hreport ⊢
      obtain rfl := Except.ok.inj hreport
      exact holds_shown hr hx hjson hquiet

/-- The template and the name of the directory hold quotes, backslashes, a control character and
a line separator. -/
theorem stdout_holds_report_escaped :
    let content : List UInt8 := [123, 78, 125, 34, 92, 1, 226, 128, 168]
    let h : Host := ⟨⟨.directory [("t", .file content)], []⟩, {}⟩
    let o : SpawnOptions :=
      { count := .text "2", template := .text "t", outDir := .text "\"\\\u2028", json := .bool true }
    let dry : SpawnOptions := { o with dryRun := .bool true }
    let one : PromptOptions := { template := .text "t", json := .bool true }
    (∃ report, (spawnPrompts o h).result = .ok report ∧ report.count = .ofNat 2 ∧
      Holds SpawnReport.toJson SpawnReport.ofJson? (spawnPrompts o h).console.stdout report) ∧
    (∃ plan, (spawnPrompts dry h).result = .ok plan ∧ plan.count = .ofNat 2 ∧
      Holds SpawnReport.toJson SpawnReport.ofJson? (spawnPrompts dry h).console.stdout plan) ∧
    ∃ report, (showPrompt one h).result = .ok report ∧
      report = ⟨.ofNat 1, "1\"\\\x01\u2028"⟩ ∧
      Holds PromptReport.toJson PromptReport.ofJson? (showPrompt one h).console.stdout report := by
  intro content h o dry one
  have hexact : ∀ {n : ℕ} {x : Number}, n < exactBound → x = .ofNat n → x.BelowExact :=
    fun hn hx => hx ▸ belowExact_ofNat.mpr hn
  obtain ⟨report, hreport, hcount⟩ :
      ∃ report, (spawnPrompts o h).result = .ok report ∧ report.count = .ofNat 2 :=
    exists_of_toOption_map (by decide +kernel)
  obtain ⟨plan, hplan, hplanned⟩ :
      ∃ plan, (spawnPrompts dry h).result = .ok plan ∧ plan.count = .ofNat 2 :=
    exists_of_toOption_map (by decide +kernel)
  obtain ⟨shown, hshown, hprompt⟩ : ∃ shown, (showPrompt one h).result = .ok shown ∧
      shown = ⟨.ofNat 1, "1\"\\\x01\u2028"⟩ :=
    exists_of_toOption_map (f := id) (by decide +kernel)
  have hone : shown.agentId.BelowExact := hexact (by decide : 1 < exactBound) (by rw [hprompt])
  have htwo : 2 < exactBound := by decide
  obtain ⟨hspawned, hprompted⟩ := stdout_holds_report h
  exact ⟨⟨report, hreport, hcount, hspawned o report rfl rfl hreport (hexact htwo hcount)⟩,
    ⟨plan, hplan, hplanned, hspawned dry plan rfl rfl hplan (hexact htwo hplanned)⟩,
    ⟨shown, hshown, hprompt, hprompted one shown rfl rfl hshown hone⟩⟩

end AgentPrompts
