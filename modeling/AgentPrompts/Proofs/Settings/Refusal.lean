import AgentPrompts.Proofs.Settings.Count
import AgentPrompts.Proofs.Settings.Resolution

/-! # Settings that are refused

Settings that cannot be used are reported by their cause: a count that is no natural number
first and alone, then the texts that are missing or empty, each by its key and in their order.
The report of a count shows its text, so a count that hides its text fails in another way.
-/

namespace AgentPrompts

def Issue.setting : Issue → Setting
  | notText setting _ => setting
  | empty setting => setting

namespace Settings

def IsPath (v : Value) : Prop := ∃ t, v = .text t ∧ t ≠ ""

/-- A report of exactly the texts that cannot be used, in their order. -/
structure ReportsTexts (template outDir : Value) (e : ConfigurationError) : Prop where
  code : e.code = .invalidConfig
  issues : ∃ issues : List Issue,
    e.message = "Invalid configuration: " ++ String.intercalate ", " (issues.map Issue.message) ∧
    (issues.map Issue.setting).Sublist [.template, .outDir] ∧
    (.template ∈ issues.map Issue.setting ↔ ¬ IsPath template) ∧
    (.outDir ∈ issues.map Issue.setting ↔ ¬ IsPath outDir)

/-- What is reported for settings with the given values: a bad count whatever the texts are, then
bad texts, and nothing that is no configuration error. -/
structure Reported (count template outDir : Value) (result : Except Failure Settings) : Prop where
  badCount : (∀ n, count ≠ .number (.ofNat n)) →
    ∃ e, result = .error (.configuration e) ∧ e.code = .invalidCount
  badTexts : ∀ n, count = .number (.ofNat n) → ¬ (IsPath template ∧ IsPath outDir) →
    ∃ e, result = .error (.configuration e) ∧ ReportsTexts template outDir e
  configuration : ∀ f, result = .error f → f.isConfiguration = true

section Check

variable {s : Source} {n : Nat}

theorem checkText_cases (k : Setting) (v : Value) : (∃ t, checkText k v = .ok t ∧ IsPath v) ∨
    ∃ issue, checkText k v = .error issue ∧ issue.setting = k ∧ ¬ IsPath v := by
  cases h : checkText k v with
  | ok t => exact Or.inl ⟨t, rfl, t, checkText_eq_ok_iff.mp h⟩
  | error issue =>
    refine Or.inr ⟨issue, rfl, ?_, ?_⟩
    · unfold checkText at h
      split at h
      next =>
        split at h
        next => rw [← Except.error.inj h, Issue.setting]
        next => cases h
      next => rw [← Except.error.inj h, Issue.setting]
    · rintro ⟨t, hv, hne⟩
      rw [checkText_eq_ok_iff.mpr ⟨hv, hne⟩] at h
      cases h

def countRefusal (v : Value) : Failure :=
  match v.asText with
  | .ok shown => .configuration (.countSetting shown)
  | .error e => .noText e

theorem check_of_badCount (h : ∀ n, s.count ≠ .number (.ofNat n)) :
    check s = .error (countRefusal s.count) := by
  obtain ⟨count, template, outDir⟩ := s
  have herror : (match count.asText with
      | .ok shown => .error (.configuration (.countSetting shown))
      | .error e => .error (.noText e) : Except Failure Settings) =
      .error (countRefusal count) := by
    unfold countRefusal
    cases count.asText <;> rfl
  cases count with
  | number x =>
    have hnat : ¬ x.nat?.isSome = true := by
      intro hnat
      obtain ⟨n, hn⟩ := Option.isSome_iff_exists.mp hnat
      exact h n (congrArg Value.number (Number.nat?_eq_some_iff.mp hn))
    simp only [check, if_neg hnat]
    exact herror
  | _ => exact herror

theorem check_of_count (h : s.count = .number (.ofNat n)) :
    check s = match checkText .template s.template, checkText .outDir s.outDir with
      | .ok t, .ok o => .ok ⟨.ofNat n, t, o⟩
      | template, outDir => .error (.configuration (.settings (issuesOf [template, outDir]))) := by
  have hnat : (Number.ofNat n).nat?.isSome := by rw [Number.nat?_ofNat]; rfl
  simp only [check, h, if_pos hnat]
  cases checkText .template s.template <;> cases checkText .outDir s.outDir <;> rfl

theorem reportsTexts_of_check (h : s.count = .number (.ofNat n))
    (hbad : ¬ (IsPath s.template ∧ IsPath s.outDir)) :
    ∃ e, check s = .error (.configuration e) ∧ ReportsTexts s.template s.outDir e := by
  rw [check_of_count h]
  rcases checkText_cases .template s.template with ⟨t, ht, htpath⟩ | ⟨i, hi, hikey, hipath⟩ <;>
    rcases checkText_cases .outDir s.outDir with ⟨o, ho, hopath⟩ | ⟨j, hj, hjkey, hjpath⟩
  · exact absurd ⟨htpath, hopath⟩ hbad
  · rw [ht, hj]
    exact ⟨_, rfl, rfl, [j], rfl, by simp [hjkey], by simp [hjkey, htpath], by simp [hjkey, hjpath]⟩
  · rw [hi, ho]
    exact ⟨_, rfl, rfl, [i], rfl, by simp [hikey], by simp [hikey, hipath], by simp [hikey, hopath]⟩
  · rw [hi, hj]
    exact ⟨_, rfl, rfl, [i, j], rfl, by simp [hikey, hjkey], by simp [hikey, hipath],
      by simp [hjkey, hjpath]⟩

theorem reported_check (hshown : ¬ s.count.HidesText) :
    Reported s.count s.template s.outDir (check s) := by
  have hcount (hbad : ∀ n, s.count ≠ .number (.ofNat n)) :
      ∃ shown, check s = .error (.configuration (.countSetting shown)) := by
    rcases s.count.asText_cases with ⟨shown, htext, -⟩ | ⟨e, -, hhides⟩
    · exact ⟨shown, by rw [check_of_badCount hbad, countRefusal, htext]⟩
    · exact absurd hhides hshown
  constructor
  · intro hbad
    obtain ⟨shown, hcheck⟩ := hcount hbad
    exact ⟨_, hcheck, rfl⟩
  · exact fun n hn hbad => reportsTexts_of_check hn hbad
  · intro f hf
    by_cases hgood : ∃ n, s.count = .number (.ofNat n)
    · obtain ⟨n, hn⟩ := hgood
      rw [check_of_count hn] at hf
      split at hf
      next => cases hf
      next => rw [← Except.error.inj hf, Failure.isConfiguration]
    · obtain ⟨shown, hcheck⟩ := hcount fun n hn => hgood ⟨n, hn⟩
      rw [hcheck] at hf
      rw [← Except.error.inj hf, Failure.isConfiguration]

end Check

section Load

variable {d : Disk} {env : Environment} {project : Option String} {overrides : Source}
  {count template outDir : Value}

/-- Loading reports what is wrong with the values that are given first. -/
theorem reported_load (hcount : FirstGiven (given d env project overrides .count) count)
    (htemplate : FirstGiven (given d env project overrides .template) template)
    (houtDir : FirstGiven (given d env project overrides .outDir) outDir)
    (hshown : ¬ count.HidesText) :
    Reported count template outDir (load d env project overrides) := by
  obtain rfl := (firstGiven_iff .count count).mp hcount
  obtain rfl := (firstGiven_iff .template template).mp htemplate
  obtain rfl := (firstGiven_iff .outDir outDir).mp houtDir
  exact reported_check hshown

theorem isConfiguration_of_load {f : Failure}
    (hshown : ∀ v, FirstGiven (given d env project overrides .count) v → ¬ v.HidesText)
    (h : load d env project overrides = .error f) : f.isConfiguration = true := by
  have hgiven (k : Setting) : FirstGiven (given d env project overrides k)
      ((merged (sources d env project overrides)).get k) := (firstGiven_iff k _).mpr rfl
  exact (reported_load (hgiven .count) (hgiven .template) (hgiven .outDir)
    (hshown _ (hgiven .count))).configuration f h

end Load

end Settings

end AgentPrompts
