import AgentPrompts.Proofs.Number.Agents
import AgentPrompts.Settings.Load

/-! # Resolution of settings

Each setting has the value that the first source gives which gives any. Settings are
loaded if and only if these values are a natural number and two texts that are not empty,
and nothing else that the sources hold matters.
-/

namespace AgentPrompts.Settings

/-- The value that the first of several sources gives, none before it giving any. -/
inductive FirstGiven : List (Value → Prop) → Value → Prop where
  | here {gives : Value → Prop} {rest : List (Value → Prop)} {v : Value} (h : gives v) :
      FirstGiven (gives :: rest) v
  | later {gives : Value → Prop} {rest : List (Value → Prop)} {v : Value} (hn : ∀ w, ¬ gives w)
      (h : FirstGiven rest v) : FirstGiven (gives :: rest) v

def OverridesGive (overrides : Source) (k : Setting) (v : Value) : Prop :=
  overrides.get k = v ∧ v ≠ .absent

/-- The environment gives texts that are not empty, and a count by a text that is not blank
and states a natural number. -/
def EnvironmentGives (env : Environment) : Setting → Value → Prop
  | .count, v => ∃ text n, env.agentCount = some text ∧ trimBlanks text.toList ≠ [] ∧
      Number.ofText text = .ofNat n ∧ v = .number (.ofNat n)
  | .template, v => ∃ text, env.promptTemplate = some text ∧ text ≠ "" ∧ v = .text text
  | .outDir, v => ∃ text, env.promptOutDir = some text ∧ text ≠ "" ∧ v = .text text

def ProjectDocument (d : Disk) (project : Option String) (name : String) (document : Json) :
    Prop :=
  ∃ content, d.readFile (projectFile project name) = .ok content ∧
    Json.parse? (Utf8.decode content) = some document

/-- What a record gives; a null counts. -/
def RecordGives (members : Members Json) (k : Setting) (v : Value) : Prop :=
  ∃ document, Members.get? k.key members = some document ∧ v = Value.ofJson document

def SwarmrcGives (d : Disk) (project : Option String) (k : Setting) (v : Value) : Prop :=
  ∃ members, ProjectDocument d project ".swarmrc" (.record members) ∧ RecordGives members k v

def PackageGives (d : Disk) (project : Option String) (k : Setting) (v : Value) : Prop :=
  ∃ members swarm, ProjectDocument d project "package.json" (.record members) ∧
    Members.get? "swarm" members = some (.record swarm) ∧ RecordGives swarm k v

def defaultValue : Setting → Value
  | .count => .number (.ofNat 12)
  | .template => .text ".agents/agent_prompt.md"
  | .outDir => .text ".agents/generated"

def given (d : Disk) (env : Environment) (project : Option String) (overrides : Source)
    (k : Setting) : List (Value → Prop) :=
  [OverridesGive overrides k, EnvironmentGives env k, SwarmrcGives d project k,
    PackageGives d project k, (· = defaultValue k)]

section FirstGiven

variable {ps qs : List (Value → Prop)} {v w : Value}

theorem FirstGiven.append (h : FirstGiven ps v) : FirstGiven (ps ++ qs) v := by
  induction h with
  | here h => exact .here h
  | later hn _ ih => exact .later hn ih

theorem FirstGiven.of_append (h : FirstGiven (ps ++ qs) v) {p : Value → Prop} (hp : p ∈ ps)
    (hw : p w) : FirstGiven ps v := by
  induction ps with
  | nil => cases hp
  | cons q ps ih =>
    cases h with
    | here h => exact .here h
    | later hn h =>
      rcases List.mem_cons.mp hp with rfl | hp
      · exact absurd hw (hn w)
      · exact .later hn (ih h hp)

theorem FirstGiven.exists_of_mem {p : Value → Prop} (hp : p ∈ ps) (hw : p w) :
    ∃ v, FirstGiven ps v := by
  induction ps with
  | nil => cases hp
  | cons q ps ih =>
    by_cases hq : ∃ v, q v
    · obtain ⟨v, hv⟩ := hq
      exact ⟨v, .here hv⟩
    · rcases List.mem_cons.mp hp with rfl | hp
      · exact absurd ⟨w, hw⟩ hq
      · obtain ⟨v, hv⟩ := ih hp
        exact ⟨v, .later (fun w hw => hq ⟨w, hw⟩) hv⟩

theorem firstGiven_without {p : Value → Prop} (hn : ∀ w, ¬ p w) (ps : List (Value → Prop)) :
    FirstGiven (ps ++ p :: qs) v ↔ FirstGiven (ps ++ qs) v := by
  induction ps with
  | nil =>
    constructor
    · intro h
      cases h with
      | here h => exact absurd h (hn v)
      | later _ h => exact h
    · exact .later hn
  | cons q ps ih =>
    constructor
    · intro h
      cases h with
      | here h => exact .here h
      | later hq h => exact .later hq (ih.mp h)
    · intro h
      cases h with
      | here h => exact .here h
      | later hq h => exact .later hq (ih.mpr h)

end FirstGiven

def Gives (s : Source) (k : Setting) (v : Value) : Prop := s.get k = v ∧ v ≠ .absent

theorem eq_of_get_eq {s t : Source} (h : ∀ k, s.get k = t.get k) : s = t := by
  obtain ⟨count, template, outDir⟩ := s
  obtain rfl : count = t.count := h .count
  obtain rfl : template = t.template := h .template
  obtain rfl : outDir = t.outDir := h .outDir
  rfl

theorem isAbsent_iff {v : Value} : v.isAbsent = true ↔ v = .absent := by
  cases v <;> simp [Value.isAbsent]

theorem get_absent (k : Setting) : Source.get {} k = .absent := by
  cases k <;> rfl

theorem ofJson_ne_absent (document : Json) : Value.ofJson document ≠ .absent := by
  cases document <;> simp [Value.ofJson]

theorem get?_ofJsonMembers (name : String) (ms : Members Json) :
    Members.get? name (Value.ofJsonMembers ms) = (Members.get? name ms).map Value.ofJson := by
  simp only [Members.get?]
  induction ms with
  | nil => rfl
  | cons m ms ih =>
    obtain ⟨key, document⟩ := m
    rw [Value.ofJsonMembers, Members.lookup_member, Members.lookup_member, ih]
    split <;> rfl

theorem gives_merged_iff (ss : List Source) (k : Setting) (v : Value) :
    Gives (merged ss) k v ↔ FirstGiven (ss.map fun s => Gives s k) v := by
  induction ss with
  | nil =>
    constructor
    · rintro ⟨h, hv⟩
      rw [merged, List.foldr_nil, get_absent] at h
      exact absurd h.symm hv
    · rintro ⟨⟩
  | cons s ss ih =>
    have hmerged : (merged (s :: ss)).get k =
        if (s.get k).isAbsent then (merged ss).get k else s.get k := by
      rw [merged, List.foldr_cons, Source.get_orElse, merged]
    rw [Gives, hmerged, List.map_cons]
    by_cases habsent : s.get k = .absent
    · rw [if_pos (isAbsent_iff.mpr habsent), ← Gives, ih]
      have hn : ∀ w, ¬ Gives s k w := fun w hw => hw.2 (hw.1.symm.trans habsent)
      constructor
      · exact .later hn
      · intro h
        cases h with
        | here h => exact absurd h (hn v)
        | later _ h => exact h
    · rw [if_neg (mt isAbsent_iff.mp habsent), ← Gives]
      constructor
      · exact .here
      · intro h
        cases h with
        | here h => exact h
        | later hn h => exact absurd ⟨rfl, habsent⟩ (hn (s.get k))

theorem not_absent_given (v : Value) : ¬ (Value.absent = v ∧ v ≠ .absent) :=
  fun h => h.2 h.1.symm

theorem ofVariable_iff (text? : Option String) (v : Value) :
    Source.ofVariable text? = v ∧ v ≠ .absent ↔
      ∃ text, text? = some text ∧ text ≠ "" ∧ v = .text text := by
  constructor
  · intro h
    cases text? with
    | none => exact absurd h (not_absent_given v)
    | some text =>
      rw [Source.ofVariable] at h
      split at h
      next => exact absurd h (not_absent_given v)
      next hne => exact ⟨text, rfl, hne, h.1.symm⟩
  · rintro ⟨text, rfl, hne, rfl⟩
    rw [Source.ofVariable, if_neg hne]
    exact ⟨rfl, by simp⟩

theorem countOfVariable_iff (text? : Option String) (v : Value) :
    Source.countOfVariable text? = v ∧ v ≠ .absent ↔
      ∃ text n, text? = some text ∧ trimBlanks text.toList ≠ [] ∧
        Number.ofText text = .ofNat n ∧ v = .number (.ofNat n) := by
  constructor
  · intro h
    cases text? with
    | none => exact absurd h (not_absent_given v)
    | some text =>
      rw [Source.countOfVariable] at h
      split at h
      next => exact absurd h (not_absent_given v)
      next hblank =>
        dsimp only at h
        split at h
        next hnat =>
          obtain ⟨n, hn⟩ := Option.isSome_iff_exists.mp hnat
          have hx := Number.nat?_eq_some_iff.mp hn
          exact ⟨text, n, rfl, mt List.isEmpty_iff.mpr hblank, hx, hx ▸ h.1.symm⟩
        next => exact absurd h (not_absent_given v)
  · rintro ⟨text, n, rfl, hblank, hx, rfl⟩
    have hempty : ¬ (trimBlanks text.toList).isEmpty = true := mt List.isEmpty_iff.mp hblank
    have hnat : (Number.ofText text).nat?.isSome := by rw [hx, Number.nat?_ofNat]; rfl
    simp only [Source.countOfVariable, if_neg hempty, if_pos hnat]
    exact ⟨by rw [hx], by simp⟩

theorem gives_ofEnvironment_iff (env : Environment) (k : Setting) (v : Value) :
    Gives (Source.ofEnvironment env) k v ↔ EnvironmentGives env k v := by
  cases k with
  | count => exact countOfVariable_iff env.agentCount v
  | template => exact ofVariable_iff env.promptTemplate v
  | outDir => exact ofVariable_iff env.promptOutDir v

theorem gives_ofRecord_iff (ms : Members Json) (k : Setting) (v : Value) :
    Gives (Source.ofRecord (Value.ofJson (.record ms))) k v ↔ RecordGives ms k v := by
  have hget : (Source.ofRecord (Value.ofJson (.record ms))).get k =
      ((Members.get? k.key ms).map Value.ofJson).getD .absent := by
    rw [← get?_ofJsonMembers]
    cases k <;> rfl
  rw [Gives, hget, RecordGives]
  cases Members.get? k.key ms with
  | none => simp [eq_comm]
  | some document =>
    constructor
    · rintro ⟨rfl, _⟩
      exact ⟨document, rfl, rfl⟩
    · rintro ⟨_, he, rfl⟩
      cases he
      exact ⟨rfl, ofJson_ne_absent document⟩

theorem document?_eq_some_iff {d : Disk} {project : Option String} {name : String}
    {document : Json} : document? d (projectFile project name) = some document ↔
      ProjectDocument d project name document := by
  rw [document?, ProjectDocument]
  cases d.readFile (projectFile project name) with
  | ok content => simp
  | error e => simp

theorem gives_sourceOf_iff (document? : Option Json) (k : Setting) (v : Value) :
    Gives (sourceOf document?) k v ↔
      ∃ ms, document? = some (.record ms) ∧ RecordGives ms k v := by
  unfold sourceOf
  split
  next ms =>
    rw [gives_ofRecord_iff]
    constructor
    · exact fun h => ⟨ms, rfl, h⟩
    · rintro ⟨_, he, h⟩
      cases he
      exact h
  next hne =>
    constructor
    · rintro ⟨h, hv⟩
      rw [get_absent] at h
      exact absurd h.symm hv
    · rintro ⟨ms, rfl, _⟩
      exact absurd rfl (hne ms)

variable {d : Disk} {env : Environment} {project : Option String} {overrides : Source}

theorem gives_swarmrc_iff (k : Setting) (v : Value) :
    Gives (swarmrcSource d project) k v ↔ SwarmrcGives d project k v := by
  simp only [swarmrcSource, gives_sourceOf_iff, document?_eq_some_iff, SwarmrcGives]

theorem gives_package_iff (k : Setting) (v : Value) :
    Gives (packageSource d project) k v ↔ PackageGives d project k v := by
  rw [packageSource, gives_sourceOf_iff]
  constructor
  · rintro ⟨swarm, hswarm, h⟩
    obtain ⟨document, hdocument, hmember⟩ := Option.bind_eq_some_iff.mp hswarm
    cases document with
    | record members => exact ⟨members, swarm, document?_eq_some_iff.mp hdocument, hmember, h⟩
    | _ => cases hmember
  · rintro ⟨members, swarm, hdocument, hmember, h⟩
    rw [← document?_eq_some_iff] at hdocument
    exact ⟨swarm, Option.bind_eq_some_iff.mpr ⟨_, hdocument, hmember⟩, h⟩

theorem gives_defaults_iff (k : Setting) (v : Value) :
    Gives (Source.ofSettings defaults) k v ↔ v = defaultValue k := by
  have hget : (Source.ofSettings defaults).get k = defaultValue k := by cases k <;> rfl
  have hne : defaultValue k ≠ .absent := by cases k <;> simp [defaultValue]
  rw [Gives, hget]
  constructor
  · exact fun h => h.1.symm
  · rintro rfl
    exact ⟨rfl, hne⟩

/-- Merging resolves each setting to the first value given. -/
theorem gives_merged_sources_iff (k : Setting) (v : Value) :
    Gives (merged (sources d env project overrides)) k v ↔
      FirstGiven (given d env project overrides k) v := by
  have hgiven : (sources d env project overrides).map (fun s => Gives s k) =
      given d env project overrides k := by
    simp only [sources, List.map_cons, List.map_nil, given, List.cons.injEq, and_true]
    refine ⟨rfl, ?_, ?_, ?_, ?_⟩
    · exact funext fun w => propext (gives_ofEnvironment_iff env k w)
    · exact funext fun w => propext (gives_swarmrc_iff k w)
    · exact funext fun w => propext (gives_package_iff k w)
    · exact funext fun w => propext (gives_defaults_iff k w)
  rw [gives_merged_iff, hgiven]

theorem checkText_eq_ok_iff {k : Setting} {v : Value} {t : String} :
    checkText k v = .ok t ↔ v = .text t ∧ t ≠ "" := by
  cases v with
  | text s =>
    rw [checkText]
    split
    next he =>
      subst he
      simp
    next hne =>
      constructor
      · intro h
        obtain rfl := Except.ok.inj h
        exact ⟨rfl, hne⟩
      · rintro ⟨h, _⟩
        rw [Value.text.inj h]
  | _ => simp [checkText]

theorem check_eq_ok_iff {s : Source} {r : Settings} : check s = .ok r ↔
    ∃ n t o, s.count = .number (.ofNat n) ∧ s.template = .text t ∧ t ≠ "" ∧
      s.outDir = .text o ∧ o ≠ "" ∧ r = ⟨.ofNat n, t, o⟩ := by
  constructor
  · intro h
    simp only [check] at h
    split at h
    next count t o hcount ht ho =>
      obtain ⟨ht, htne⟩ := checkText_eq_ok_iff.mp ht
      obtain ⟨ho, hone⟩ := checkText_eq_ok_iff.mp ho
      split at hcount
      next x hx =>
        split at hcount
        next hnat =>
          obtain rfl := Option.some_inj.mp hcount
          obtain ⟨n, hn⟩ := Option.isSome_iff_exists.mp hnat
          obtain rfl := Number.nat?_eq_some_iff.mp hn
          exact ⟨n, t, o, hx, ht, htne, ho, hone, (Except.ok.inj h).symm⟩
        next => cases hcount
      next => cases hcount
    next => cases h
    next =>
      split at h
      next => cases h
      next => cases h
  · rintro ⟨n, t, o, hcount, ht, htne, ho, hone, rfl⟩
    have hnat : (Number.ofNat n).nat?.isSome := by rw [Number.nat?_ofNat]; rfl
    simp only [check, hcount, if_pos hnat, checkText_eq_ok_iff.mpr ⟨ht, htne⟩,
      checkText_eq_ok_iff.mpr ⟨ho, hone⟩]

structure Usable (s : Settings) : Prop where
  count : ∃ n, s.count = .ofNat n
  template : s.template ≠ ""
  outDir : s.outDir ≠ ""

theorem usable_of_load {r : Settings} (h : load d env project overrides = .ok r) : r.Usable := by
  obtain ⟨n, t, o, _, _, htne, _, hone, rfl⟩ := check_eq_ok_iff.mp h
  exact ⟨⟨n, rfl⟩, htne, hone⟩

structure LoadsFirstGiven (d : Disk) (env : Environment) (project : Option String)
    (overrides : Source) : Prop where
  resolved : ∀ k, ∃ v, FirstGiven (given d env project overrides k) v ∧
    ∀ w, FirstGiven (given d env project overrides k) w → w = v
  loaded : ∀ r, load d env project overrides = .ok r ↔ ∃ n t o,
    FirstGiven (given d env project overrides .count) (.number (.ofNat n)) ∧
    FirstGiven (given d env project overrides .template) (.text t) ∧ t ≠ "" ∧
    FirstGiven (given d env project overrides .outDir) (.text o) ∧ o ≠ "" ∧
    r = ⟨.ofNat n, t, o⟩
  shadowed : ∀ k higher lower gives w, given d env project overrides k = higher ++ lower →
    gives ∈ higher → gives w →
    ∀ v, FirstGiven (given d env project overrides k) v ↔ FirstGiven higher v
  determined : ∀ d' env' project' overrides',
    (∀ k v, FirstGiven (given d' env' project' overrides' k) v ↔
      FirstGiven (given d env project overrides k) v) →
    load d' env' project' overrides' = load d env project overrides
  withoutSwarmrc : (∀ members, ¬ ProjectDocument d project ".swarmrc" (.record members)) →
    ∀ k v, FirstGiven (given d env project overrides k) v ↔
      FirstGiven [OverridesGive overrides k, EnvironmentGives env k, PackageGives d project k,
        (· = defaultValue k)] v
  withoutPackage : (∀ members swarm,
      ProjectDocument d project "package.json" (.record members) →
      Members.get? "swarm" members ≠ some (.record swarm)) →
    ∀ k v, FirstGiven (given d env project overrides k) v ↔
      FirstGiven [OverridesGive overrides k, EnvironmentGives env k, SwarmrcGives d project k,
        (· = defaultValue k)] v
  null : ∀ members k, Members.get? k.key members = some .null → RecordGives members k .null
  members : ∀ ms, overrides = Source.ofRecord (.record ms) → ∀ k v,
    OverridesGive overrides k v ↔ Members.get? k.key ms = some v ∧ v ≠ .absent

theorem get_merged_ne_absent (k : Setting) :
    (merged (sources d env project overrides)).get k ≠ .absent := by
  have hdefault : (· = defaultValue k) ∈ given d env project overrides k := by simp [given]
  obtain ⟨v, hv⟩ := FirstGiven.exists_of_mem hdefault rfl
  obtain ⟨rfl, hne⟩ := (gives_merged_sources_iff k v).mpr hv
  exact hne

theorem firstGiven_iff (k : Setting) (v : Value) :
    FirstGiven (given d env project overrides k) v ↔
      (merged (sources d env project overrides)).get k = v := by
  rw [← gives_merged_sources_iff, Gives]
  constructor
  · exact And.left
  · rintro rfl
    exact ⟨rfl, get_merged_ne_absent k⟩

theorem eq_of_firstGiven {k : Setting} {v w : Value}
    (h : FirstGiven (given d env project overrides k) v)
    (h' : FirstGiven (given d env project overrides k) w) : v = w :=
  ((firstGiven_iff k v).mp h).symm.trans ((firstGiven_iff k w).mp h')

theorem firstGiven_override {k : Setting} {v : Value} (h : overrides.get k = v)
    (hv : v ≠ .absent) : FirstGiven (given d env project overrides k) v :=
  .here ⟨h, hv⟩

theorem firstGiven_of_load {r : Settings} (h : load d env project overrides = .ok r)
    (k : Setting) : FirstGiven (given d env project overrides k) ((Source.ofSettings r).get k) := by
  obtain ⟨n, t, o, hn, ht, -, ho, -, rfl⟩ := check_eq_ok_iff.mp h
  cases k with
  | count => exact (firstGiven_iff .count _).mpr hn
  | template => exact (firstGiven_iff .template _).mpr ht
  | outDir => exact (firstGiven_iff .outDir _).mpr ho

theorem get_of_load {r : Settings} {k : Setting} {v : Value}
    (h : load d env project overrides = .ok r) (hk : overrides.get k = v) (hv : v ≠ .absent) :
    (Source.ofSettings r).get k = v :=
  eq_of_firstGiven (firstGiven_of_load h k) (firstGiven_override hk hv)

/-- Settings are loaded from the first value given for each. -/
theorem loads_firstGiven (d : Disk) (env : Environment) (project : Option String)
    (overrides : Source) : LoadsFirstGiven d env project overrides where
  resolved k := ⟨_, (firstGiven_iff k _).mpr rfl, fun w hw => ((firstGiven_iff k w).mp hw).symm⟩
  loaded r := by
    simp only [firstGiven_iff]
    exact check_eq_ok_iff
  shadowed k higher lower gives w he hp hw v := by
    rw [he]
    exact ⟨fun h => h.of_append hp hw, fun h => h.append⟩
  determined d' env' project' overrides' h := by
    have hget : ∀ k, (merged (sources d' env' project' overrides')).get k =
        (merged (sources d env project overrides)).get k := by
      intro k
      exact (firstGiven_iff k _).mp ((h k _).mpr ((firstGiven_iff k _).mpr rfl))
    rw [load, eq_of_get_eq hget, load]
  withoutSwarmrc hn k v := by
    have hnone : ∀ w, ¬ SwarmrcGives d project k w := fun w ⟨members, h, _⟩ => hn members h
    exact firstGiven_without hnone [OverridesGive overrides k, EnvironmentGives env k]
  withoutPackage hn k v := by
    have hnone : ∀ w, ¬ PackageGives d project k w :=
      fun w ⟨members, swarm, h, hm, _⟩ => hn members swarm h hm
    exact firstGiven_without hnone
      [OverridesGive overrides k, EnvironmentGives env k, SwarmrcGives d project k]
  null members k h := ⟨.null, h, rfl⟩
  members ms he k v := by
    subst he
    have hget : (Source.ofRecord (.record ms)).get k =
        (Members.get? k.key ms).getD .absent := by cases k <;> rfl
    rw [OverridesGive, hget]
    cases Members.get? k.key ms with
    | none =>
      constructor
      · exact fun h => absurd h (not_absent_given v)
      · rintro ⟨h, _⟩
        cases h
    | some w => simp

end AgentPrompts.Settings
