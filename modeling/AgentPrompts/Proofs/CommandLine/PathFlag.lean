import AgentPrompts.Proofs.CommandLine.Effects
import AgentPrompts.Proofs.CommandLine.Occurrence
import AgentPrompts.Proofs.CommandLine.Undotted

/-! # Paths as typed

Where one occurrence of a flag alone gives an option its path, and nothing is added to the shared
objects, the command uses the path as it was typed. Only a numeral is lost, and only in a form that
the help text does not show: in camel case its number stands for it, and behind a bare equals sign
nothing is left of it.
-/

namespace AgentPrompts

open CommandLine

def SpawnOptions.pathOf (s : SpawnOptions) (a : OptionUsage) : Value :=
  if a = .template then s.template else if a = .outDir then s.outDir else s.project

def PromptOptions.pathOf (s : PromptOptions) (a : OptionUsage) : Value :=
  if a = .template then s.template else s.project

namespace CommandLine

open OptionUsage

/-- Settings that have a path for an option; a project has no path in them. -/
structure HasPath (r : Settings) (a : OptionUsage) (path : String) : Prop where
  template : a = .template → r.template = path
  outDir : a = .outDir → r.outDir = path

/-- A path is used for an option, by a generation and by the prompt of an agent: their options
have it, and so have the settings with which they run. -/
structure UsesPath (i : Invocation) (args : List String) (a : OptionUsage) (path : String) :
    Prop where
  read : pathOption (i.value a.key) args a.flag = .ok (.text path)
  generation : ∀ s, i.spawnOptions args = .ok s → s.pathOf a = .text path ∧
    ∀ h r, s.settings h = .ok r → HasPath r a path
  shown : a ≠ .outDir → ∀ s, i.promptOptions args = .ok s → s.pathOf a = .text path ∧
    ∀ h r, s.settings h = .ok r → HasPath r a path

section Options

variable {args : List String} {i : Invocation} {a : OptionUsage}

theorem pathOf_spawnOptions {s : SpawnOptions} (h : i.spawnOptions args = .ok s) (ha : a ∈ paths) :
    pathOption (i.value a.key) args a.flag = .ok (s.pathOf a) := by
  have hread := SpawnOptions.readFrom h
  rcases cases_of_mem_paths ha with rfl | rfl | rfl
  · exact hread.template
  · exact hread.outDir
  · exact hread.project

theorem pathOf_promptOptions {s : PromptOptions} (h : i.promptOptions args = .ok s)
    (ha : a ∈ paths) (hne : a ≠ .outDir) :
    pathOption (i.value a.key) args a.flag = .ok (s.pathOf a) := by
  have hread := PromptOptions.readFrom h
  rcases cases_of_mem_paths ha with rfl | rfl | rfl
  · exact hread.template
  · exact absurd rfl hne
  · exact hread.project

theorem hasPath_of_load {d : Disk} {env : Environment} {project : Option String}
    {overrides : Source} {r : Settings} {path : String}
    (h : Settings.load d env project overrides = .ok r)
    (htemplate : a = .template → overrides.template = .text path)
    (houtDir : a = .outDir → overrides.outDir = .text path) : HasPath r a path := by
  have hne : Value.text path ≠ .absent := by simp
  constructor
  · intro ha
    exact Value.text.inj (Settings.get_of_load (k := .template) h (htemplate ha) hne)
  · intro ha
    exact Value.text.inj (Settings.get_of_load (k := .outDir) h (houtDir ha) hne)

theorem usesPath_of_read {path : String} (ha : a ∈ paths)
    (h : pathOption (i.value a.key) args a.flag = .ok (.text path)) : UsesPath i args a path where
  read := h
  generation s hs := by
    have hpath : s.pathOf a = .text path :=
      Except.ok.inj ((pathOf_spawnOptions hs ha).symm.trans h)
    refine ⟨hpath, fun h r hr => ?_⟩
    obtain ⟨count, project, hload⟩ := load_of_settings hr
    apply hasPath_of_load hload
    · rintro rfl
      exact hpath
    · rintro rfl
      exact hpath
  shown hne s hs := by
    have hpath : s.pathOf a = .text path :=
      Except.ok.inj ((pathOf_promptOptions hs ha hne).symm.trans h)
    refine ⟨hpath, fun h r hr => ?_⟩
    obtain ⟨project, hload⟩ := PromptOptions.load_of_settings hr
    apply hasPath_of_load hload
    · rintro rfl
      exact hpath
    · exact fun ha => absurd ha hne

end Options

namespace Sole

variable {o : Occurrence} {args before after : List String} {i : Invocation}
  (h : Sole o args before after) (hadds : AddsNothing args) (hi : Invocation.ofArgs args = .ok i)
include h hadds hi

theorem option_eq : i.option o.option.key = Flags.valueOf o.text := by
  have hne : valuesFor o.name (items (args.takeWhile (· ≠ "--"))) ≠ [] := by
    rw [h.valuesFor_eq]
    exact List.cons_ne_nil _ _
  have hholds := Invocation.holds_option hadds hi
    (isFlagOf_paths o.option o.isPath o.name o.mem_names) (isKey_key o.option o.documented)
    (not_switch_paths i.command o.option o.isPath o.name o.mem_names) h.givesOnly hne
  rw [h.valuesFor_eq] at hholds
  rcases hholds with hvalue | ⟨hlength, -⟩
  · exact (List.singleton_inj.mp hvalue).symm
  · exact absurd hlength (lt_irrefl 1)

theorem usesPath : UsesPath i args o.option o.path := by
  refine usesPath_of_read o.isPath ?_
  rw [Invocation.value, h.option_eq hadds hi, Occurrence.path]
  unfold Flags.valueOf
  split
  next q hq =>
    simp only [Datum.toValue, pathOption, h.lastFlagText_eq]
    cases o.scanned <;> rfl
  next => rfl

end Sole

/-- A path flag that stands alone gives its command the path as it was typed, unless the text is a
numeral in a form that the help text does not show. -/
theorem usesPath_of_sole {o : Occurrence} {args before after : List String} {i : Invocation}
    (hi : Invocation.ofArgs args = .ok i) (h : Sole o args before after)
    (hadds : AddsNothing args)
    (htyped : o.IsDocumented ∨ Flags.valueOf o.text = .text o.text) :
    UsesPath i args o.option o.text := by
  have hpath := h.usesPath hadds hi
  rwa [Occurrence.path_eq_text htyped] at hpath

/-- A numeral in a documented form, among other options. -/
theorem usesPath_of_sole_numeral :
    let o : Occurrence :=
      ⟨.outDir, "out-dir", .spaced, "007", by decide, Or.inl (by decide), by decide⟩
    let before := ["--template=t", "--json"]
    let after := ["--count", "1"]
    let args := before ++ (o.words ++ after)
    ∃ i, Invocation.ofArgs args = .ok i ∧ Sole o args before after ∧ AddsNothing args ∧
      UsesPath i args .outDir "007" := by
  intro o before after args
  obtain ⟨i, hi, -⟩ : ∃ i, Invocation.ofArgs args = .ok i ∧ i.usageError? = none :=
    exists_of_toOption_map (by decide +kernel)
  have hsole : Sole o args before after := ⟨by decide, by decide⟩
  have hadds : AddsNothing args := addsNothing_of_undotted (by decide +kernel)
  exact ⟨i, hi, hsole, hadds, usesPath_of_sole hi hsole hadds (Or.inl ⟨by decide, by decide⟩)⟩

/-- A numeral in camel case: the command uses the text of its number. -/
theorem not_usesPath_of_camelCase :
    ¬ ∀ (o : Occurrence) (args before after : List String) (i : Invocation),
      Invocation.ofArgs args = .ok i → i.usageError? = none → Sole o args before after →
      UsesPath i args o.option o.text := by
  intro hall
  let o : Occurrence :=
    ⟨.outDir, "outDir", .spaced, "007", by decide, Or.inr (by decide), by decide⟩
  let before := ["--count", "1", "--template", "t"]
  let args := before ++ (o.words ++ [])
  obtain ⟨i, hi, husage⟩ : ∃ i, Invocation.ofArgs args = .ok i ∧ i.usageError? = none :=
    exists_of_toOption_map (by decide +kernel)
  have hsole : Sole o args before [] := ⟨by decide, by decide⟩
  have hclaimed := (hall o args before [] i hi husage hsole).read
  have hadds : AddsNothing args := addsNothing_of_undotted (by decide +kernel)
  have hused := (hsole.usesPath hadds hi).read
  have hpath : o.path = "7" := by decide +kernel
  rw [hused, hpath] at hclaimed
  exact absurd (Value.text.inj (Except.ok.inj hclaimed)) (by decide)

end CommandLine

end AgentPrompts
