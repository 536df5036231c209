import AgentPrompts.Proofs.CommandLine.Documented
import AgentPrompts.Proofs.CommandLine.Invalid

/-! # Counts at every entrance

A count may be given as the option of a command line, as an environment variable or directly.
A text that is not blank is judged in the same way at each of them: where it states a natural
number that number is used, and elsewhere the command line is refused while the variable
counts as not set.
-/

namespace AgentPrompts

open CommandLine Settings

section Values

variable {s : String} {n : Nat}

theorem states_text_iff :
    (Value.text s).States n ↔ trimBlanks s.toList ≠ [] ∧ Number.ofText s = .ofNat n := by
  simp [Value.States]

theorem states_valueOf_iff (hblank : trimBlanks s.toList ≠ []) :
    ((Flags.valueOf s).toValue []).States n ↔ (Value.text s).States n := by
  rw [states_text_iff, Flags.valueOf]
  split
  next q hq => simp [Datum.toValue, Value.States, hq, hblank]
  next => simp [Datum.toValue, Value.States]

theorem not_hidesText_valueOf (s : String) : ¬ ((Flags.valueOf s).toValue []).HidesText := by
  unfold Flags.valueOf
  split <;> rintro ⟨⟩

end Values

namespace Settings

/-- Sources that give a template and an output directory that can be used. -/
def Equipped (d : Disk) (env : Environment) (project : Option String) (overrides : Source) :
    Prop :=
  ∃ t o, FirstGiven (given d env project overrides .template) (.text t) ∧ t ≠ "" ∧
    FirstGiven (given d env project overrides .outDir) (.text o) ∧ o ≠ ""

section Load

variable {d : Disk} {env : Environment} {project : Option String} {overrides : Source}
  {s : String} {n : Nat} {v : Value} {r : Settings}

theorem exists_load (h : Equipped d env project overrides)
    (hcount : FirstGiven (given d env project overrides .count) (.number (.ofNat n))) :
    ∃ r, load d env project overrides = .ok r ∧ r.count = .ofNat n := by
  obtain ⟨t, o, ht, htne, ho, hone⟩ := h
  refine ⟨⟨.ofNat n, t, o⟩, check_eq_ok_iff.mpr ⟨n, t, o, ?_, ?_, htne, ?_, hone, rfl⟩, rfl⟩
  · exact (firstGiven_iff .count _).mp hcount
  · exact (firstGiven_iff .template _).mp ht
  · exact (firstGiven_iff .outDir _).mp ho

theorem environmentGives_count_iff :
    EnvironmentGives { env with agentCount := some s } .count v ↔
      ∃ n, (Value.text s).States n ∧ v = .number (.ofNat n) := by
  simp only [EnvironmentGives, states_text_iff]
  constructor
  · rintro ⟨text, n, htext, hblank, hn, rfl⟩
    obtain rfl := Option.some_inj.mp htext
    exact ⟨n, ⟨hblank, hn⟩, rfl⟩
  · rintro ⟨n, ⟨hblank, hn⟩, rfl⟩
    exact ⟨s, n, rfl, hblank, hn, rfl⟩

theorem load_of_not_states (h : ∀ n, ¬ (Value.text s).States n) :
    load d { env with agentCount := some s } project overrides =
      load d { env with agentCount := none } project overrides := by
  have hcount : Source.countOfVariable (some s) = .absent := by
    by_contra hne
    obtain ⟨text, n, htext, hblank, hn, -⟩ := (countOfVariable_iff (some s) _).mp ⟨rfl, hne⟩
    obtain rfl := Option.some_inj.mp htext
    exact h n (states_text_iff.mpr ⟨hblank, hn⟩)
  simp only [load, sources, Source.ofEnvironment, hcount]
  rfl

end Load

end Settings

namespace CommandLine

open OptionUsage

def countArgs (s : String) : List String := ["spawn-prompts", "--count", s, "--dry-run"]

def countLine (s : String) (h : startsWithDash s = false) : Line .spawnPrompts :=
  ⟨[], [.spaced .count s (by decide) rfl h, .switch .dryRun (by decide) rfl]⟩

section Lines

variable {s : String}

theorem Generates.unique {args : List String} {o o' : SpawnOptions} (h : Generates args o)
    (h' : Generates args o') : o = o' := by
  obtain ⟨i, hi, ho⟩ := h.read
  obtain ⟨i', hi', ho'⟩ := h'.read
  obtain rfl := Except.ok.inj (hi.symm.trans hi')
  exact Except.ok.inj (ho.symm.trans ho')

structure PlansCount (s : String) (o : SpawnOptions) : Prop extends Generates (countArgs s) o where
  count : o.count = (Flags.valueOf s).toValue []
  template : o.template = .absent
  outDir : o.outDir = .absent
  project : o.project = .absent
  dryRun : o.dryRun.isOn = true

theorem exists_plansCount (hdash : startsWithDash s = false) : ∃ o, PlansCount s o := by
  have hargs : (countLine s hdash).args = countArgs s := rfl
  obtain ⟨chosen, values, hreads⟩ := (countLine s hdash).reads
  obtain ⟨word, -, hadds⟩ := hreads.adds
  obtain ⟨o, hgenerates, htyped⟩ := hreads.generates (by decide)
  have hcount : o.count = (Invocation.holding chosen values).value "count" := by
    obtain ⟨i, hi, ho⟩ := hgenerates.read
    obtain rfl := Except.ok.inj (hreads.ofArgs.symm.trans hi)
    exact (SpawnOptions.readFrom ho).count
  have hvalue : (Invocation.holding chosen values).option "count" = Flags.valueOf s := by
    have hkey := Invocation.option_key (c := chosen) hreads.areValues (o := .count) (by decide)
    rw [Mention.given_of_takesValue hadds rfl] at hkey
    exact hkey
  exact ⟨o,
    { toGenerates := hargs ▸ hgenerates
      count := by rw [hcount, Invocation.value, hvalue]; rfl
      template := htyped.template
      outDir := htyped.outDir
      project := htyped.project
      dryRun := htyped.dryRun.mpr
        ⟨.switch .dryRun (by decide) rfl, List.mem_cons_of_mem _ List.mem_cons_self, rfl⟩ }⟩

namespace PlansCount

variable {o : SpawnOptions} (ho : PlansCount s o) {h : Host} {x : Number} {n : Nat} {f : Failure}
include ho

theorem settings_eq : o.settings h = (Value.number <$> parseCount "--count" o.count) >>=
    fun count => Settings.load h.disk h.environment none { count := count } := by
  have habsent : ¬ o.count.isAbsent = true := by
    rw [ho.count, Flags.valueOf]
    split <;> exact Bool.false_ne_true
  rw [SpawnOptions.settings, if_neg habsent, ho.template, ho.outDir, ho.project]
  rfl

theorem parseCount_iff (hblank : trimBlanks s.toList ≠ []) :
    parseCount "--count" o.count = .ok x ↔ parseCount "--count" (.text s) = .ok x := by
  simp only [parseCount_eq_ok_iff, ho.count, states_valueOf_iff hblank]

theorem run_of_not_states (hblank : trimBlanks s.toList ≠ [])
    (hnot : ∀ n, ¬ (Value.text s).States n) (platform : String) (h : Host) :
    (run (countArgs s) platform h).status = ExitStatus.configuration ∧
      (run (countArgs s) platform h).disk = h.disk ∧
      (run (countArgs s) platform h).console.stdout = "" := by
  have hshown : ¬ o.count.HidesText := by
    rw [ho.count]
    exact not_hidesText_valueOf s
  have hbad : ∀ n, ¬ o.count.States n := by
    intro n hn
    rw [ho.count, states_valueOf_iff hblank] at hn
    exact hnot n hn
  obtain ⟨e, he, -⟩ := (countReported hshown).badCount hbad
  have hsettings : o.settings h = .error (.configuration e) := by
    rw [ho.settings_eq, he]
    rfl
  rw [ho.run, spawnPrompts_of_error hsettings]
  exact ⟨rfl, rfl, rfl⟩

end PlansCount

end Lines

/-- The command line goes ahead with a count: it plans as many prompts and changes nothing. -/
structure Proceeds (s : String) (h : Host) (x : Number) : Prop where
  settings : ∃ o r, Generates (countArgs s) o ∧ o.settings h = .ok r ∧ r.count = x
  run : ∀ platform, (run (countArgs s) platform h).status = ExitStatus.success ∧
    (run (countArgs s) platform h).disk = h.disk

structure UsesVariable (s : String) (d : Disk) (env : Environment) (project : Option String)
    (overrides : Source) (x : Number) : Prop where
  gives : EnvironmentGives { env with agentCount := some s } .count (.number x)
  settings : ∃ r, Settings.load d { env with agentCount := some s } project overrides = .ok r ∧
    r.count = x

/-- A text is judged as a count in the same way at every entrance. -/
structure JudgedAlike (s : String) : Prop where
  flag : ∀ h x, Equipped h.disk h.environment none {} →
    (Proceeds s h x ↔ parseCount "--count" (.text s) = .ok x)
  environment : ∀ d env project overrides x, overrides.count = .absent →
    Equipped d env project overrides →
    (UsesVariable s d env project overrides x ↔ parseCount "--count" (.text s) = .ok x)
  refused : ∀ f, parseCount "--count" (.text s) = .error f → ∀ platform h,
    (CommandLine.run (countArgs s) platform h).status = ExitStatus.configuration ∧
      (CommandLine.run (countArgs s) platform h).disk = h.disk ∧
      (CommandLine.run (countArgs s) platform h).console.stdout = ""
  notSet : ∀ f, parseCount "--count" (.text s) = .error f →
    ∀ d (env : Environment) project overrides,
    Settings.load d { env with agentCount := some s } project overrides =
      Settings.load d { env with agentCount := none } project overrides

section Entrances

variable {s : String} {h : Host} {x : Number}

theorem proceeds_iff (hdash : startsWithDash s = false) (hblank : trimBlanks s.toList ≠ [])
    (hequipped : Equipped h.disk h.environment none {}) :
    Proceeds s h x ↔ parseCount "--count" (.text s) = .ok x := by
  obtain ⟨o, ho⟩ := exists_plansCount hdash
  constructor
  · rintro ⟨⟨o', r, ho', hr, rfl⟩, -⟩
    -- The command line is read in one way only, so the settings are those of the plan.
    obtain rfl := ho.toGenerates.unique ho'
    rw [ho.settings_eq] at hr
    obtain ⟨count, hcount, hload⟩ := exists_of_bind_eq_ok hr
    obtain ⟨y, hy, rfl⟩ := exists_of_map_eq_ok hcount
    obtain rfl := Value.number.inj (get_of_load (k := .count) hload rfl (by simp))
    exact (ho.parseCount_iff hblank).mp hy
  · intro hx
    have hread := (ho.parseCount_iff hblank).mpr hx
    obtain ⟨n, -, rfl⟩ := parseCount_eq_ok_iff.mp hx
    have hequipped' : Equipped h.disk h.environment none { count := .number (.ofNat n) } :=
      hequipped
    obtain ⟨r, hr, hcount⟩ := exists_load hequipped' (firstGiven_override rfl (by simp))
    have hsettings : o.settings h = .ok r := by
      rw [ho.settings_eq, hread]
      exact hr
    refine ⟨⟨o, r, ho.toGenerates, hsettings, hcount⟩, fun platform => ?_⟩
    rw [ho.run, spawnPrompts_of_dryRun hsettings ho.dryRun]
    exact ⟨rfl, rfl⟩

theorem usesVariable_iff {d : Disk} {env : Environment} {project : Option String}
    {overrides : Source} (hcount : overrides.count = .absent)
    (hequipped : Equipped d env project overrides) :
    UsesVariable s d env project overrides x ↔ parseCount "--count" (.text s) = .ok x := by
  rw [parseCount_eq_ok_iff]
  constructor
  · rintro ⟨hgives, -⟩
    obtain ⟨n, hn, he⟩ := environmentGives_count_iff.mp hgives
    exact ⟨n, hn, Value.number.inj he⟩
  · rintro ⟨n, hn, rfl⟩
    have hgives : EnvironmentGives { env with agentCount := some s } .count (.number (.ofNat n)) :=
      environmentGives_count_iff.mpr ⟨n, hn, rfl⟩
    have hnone : ∀ w, ¬ OverridesGive overrides .count w := by
      rintro w ⟨hw, hne⟩
      exact hne (hw.symm.trans hcount)
    have hequipped' : Equipped d { env with agentCount := some s } project overrides := hequipped
    exact ⟨hgives, exists_load hequipped' (.later hnone (.here hgives))⟩

end Entrances

/-- A text that is not blank and begins with no dash is judged alike at every entrance. -/
theorem judgedAlike {s : String} (hdash : startsWithDash s = false)
    (hblank : trimBlanks s.toList ≠ []) : JudgedAlike s where
  flag _ _ hequipped := proceeds_iff hdash hblank hequipped
  environment _ _ _ _ _ hcount hequipped := usesVariable_iff hcount hequipped
  refused f hf platform h := by
    obtain ⟨o, ho⟩ := exists_plansCount hdash
    exact ho.run_of_not_states hblank (parseCount_eq_error_iff.mp hf).1 platform h
  notSet f hf _ _ _ _ := load_of_not_states (parseCount_eq_error_iff.mp hf).1

/-- A numeral in base 16 between blanks. -/
theorem judgedAlike_hexadecimal :
    let h : Host := ⟨⟨.directory [], []⟩, { promptTemplate := some "t", promptOutDir := some "o" }⟩
    Equipped h.disk h.environment none {} ∧ Proceeds " 0x10\n" h (.ofNat 16) ∧
      UsesVariable " 0x10\n" h.disk h.environment none {} (.ofNat 16) := by
  intro h
  have hnone (k : Setting) : ∀ w, ¬ OverridesGive {} k w := by
    rintro w ⟨hw, hne⟩
    exact hne (hw.symm.trans (get_absent k))
  have hequipped : Equipped h.disk h.environment none {} :=
    ⟨"t", "o", .later (hnone .template) (.here ⟨"t", rfl, by decide, rfl⟩), by decide,
      .later (hnone .outDir) (.here ⟨"o", rfl, by decide, rfl⟩), by decide⟩
  have hstates : (Value.text " 0x10\n").States 16 :=
    states_text_iff.mpr ⟨by decide, by decide +kernel⟩
  have hread : parseCount "--count" (.text " 0x10\n") = .ok (.ofNat 16) :=
    parseCount_eq_ok_iff.mpr ⟨16, hstates, rfl⟩
  have hjudged : JudgedAlike " 0x10\n" := judgedAlike (by decide) (by decide)
  exact ⟨hequipped, (hjudged.flag h _ hequipped).mpr hread,
    (hjudged.environment _ _ _ {} _ rfl hequipped).mpr hread⟩

/-- The command line takes an empty text for zero. -/
theorem not_judgedAlike_empty : ¬ ∀ s, startsWithDash s = false → JudgedAlike s := by
  intro hall
  have hnot : ∀ n, ¬ (Value.text "").States n := fun n hn =>
    (states_text_iff.mp hn).1 (by decide)
  have hrefused := (hall "" (by decide)).refused _ (parseCount_of_not_states hnot) ""
    ⟨⟨.directory [], []⟩, {}⟩
  exact absurd hrefused.1 (by decide +kernel)

end CommandLine

end AgentPrompts
