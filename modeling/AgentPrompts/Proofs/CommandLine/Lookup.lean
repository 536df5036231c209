import AgentPrompts.Proofs.CommandLine.LastText
import AgentPrompts.Proofs.CommandLine.Parsed

/-! # Options looked up

Under the name of an option stands what was collected of its values, and no fault is found
where a command knows all options that were given. From mentions, an option with values has
the values of its texts, and a switch is on if it was mentioned. The text of a path is the
last one that was given.
-/

namespace AgentPrompts.CommandLine

open OptionUsage

section Collected

variable {vs : List Datum}

theorem isOn_collected_iff (h : ∀ v ∈ vs, v.isOn = true) :
    (collected vs).isOn = true ↔ vs ≠ [] := by
  rcases vs with _ | ⟨v, _ | ⟨v', vs⟩⟩
  · simp [collected, Datum.isOn]
  · simpa [collected] using h v List.mem_cons_self
  · simp [collected, Datum.isOn, Datum.ofItems]

theorem collected_ne_bool (h : ∀ v ∈ vs, ∀ b, v ≠ .bool b) (b : Bool) :
    collected vs ≠ .bool b := by
  rcases vs with _ | ⟨v, _ | ⟨v', vs⟩⟩
  · rintro ⟨⟩
  · exact h v List.mem_cons_self b
  · rintro ⟨⟩

theorem valueOf_ne_bool (text : String) (b : Bool) : Flags.valueOf text ≠ .bool b := by
  unfold Flags.valueOf
  split <;> rintro ⟨⟩

end Collected

def pathText : Option String → Value
  | some text => .text text
  | none => .absent

/-- A path is the last of its texts, where that is found among the words. -/
theorem pathOption_collected {texts args : List String} {flag : String}
    (h : lastFlagText flag args = texts.getLast?) :
    pathOption ((collected (texts.map Flags.valueOf)).toValue []) args flag =
      .ok (pathText texts.getLast?) := by
  rcases texts with _ | ⟨text, _ | ⟨text', texts⟩⟩
  · rfl
  · change pathOption ((Flags.valueOf text).toValue []) args flag = .ok (.text text)
    unfold Flags.valueOf
    split
    · simp only [Datum.toValue, pathOption, h, List.getLast?_singleton]
    · rfl
  · obtain ⟨last, hlast⟩ : ∃ last, (text :: text' :: texts).getLast? = some last :=
      ⟨_, List.getLast?_eq_some_getLast (List.cons_ne_nil _ _)⟩
    rw [hlast] at h ⊢
    simp only [List.map_cons, collected, Datum.ofItems, Datum.toValue, pathOption, h, pathText]

namespace Invocation

variable {c : Command} {values : List (OptionUsage × Datum)} {o : OptionUsage}

theorem isOn_eq (i : Invocation) (name : String) : i.isOn name = (i.value name).isOn := by
  unfold isOn value
  cases i.option name <;> rfl

def holding (c : Command) (values : List (OptionUsage × Datum)) : Invocation :=
  ⟨c, .ofItems [], optionsWith values, []⟩

section Values

variable (hvalues : AreValues values)
include hvalues

theorem option_key (ho : o ∈ documented) :
    (holding c values).option o.key = collected (given o values) := by
  have hkey := isKey_key o ho
  have hkept := get?_kept hvalues key_inj ho
  rw [option, Datum.get, if_neg hkey.not_parent, ← hkept]
  simp [holding, optionsWith, Datum.member?, Datum.emptyRecord, Datum.parent, hkey.not_inherited,
    Members.get?, Members.lookup_member, hkey.not_dashes]

theorem get?_kept_of_ne {name : String} (h : ∀ o ∈ documented, o.key ≠ name) :
    Members.get? name (kept key values) = none := by
  rw [Members.get?, List.lookup_eq_none_iff]
  intro m hm
  obtain ⟨o, ho, hkey⟩ := key_of_mem_kept hvalues m hm
  rw [← hkey, bne_iff_ne]
  exact (h o ho).symm

theorem option_global {name : String} (h : name ∈ ["help", "version"]) :
    (holding c values).option name = .absent := by
  have hother : name ≠ Datum.parentName ∧ name ≠ "--" ∧
      Datum.sharedMember? [] name (.prototype .object) = none ∧ ∀ o ∈ documented, o.key ≠ name := by
    revert name
    decide
  obtain ⟨hparent, hdashes, hinherited, hkeys⟩ := hother
  have hkept := get?_kept_of_ne hvalues hkeys
  rw [Members.get?] at hkept
  rw [option, Datum.get, if_neg hparent]
  simp [holding, optionsWith, Datum.member?, Datum.emptyRecord, Datum.parent, hinherited,
    Members.get?, Members.lookup_member, hdashes, hkept]

theorem optionNames_holding :
    (holding c values).optionNames = "--" :: (givenOptions values).map key := by
  have hindex : ∀ m ∈ ("--", Datum.ofItems []) :: kept key values,
      Members.index? m.1 = none := by
    have hdashes : Members.index? "--" = none := by decide
    refine List.forall_mem_cons.mpr ⟨hdashes, fun m hm => ?_⟩
    obtain ⟨o, ho, hkey⟩ := key_of_mem_kept hvalues m hm
    rw [← hkey, (isKey_key o ho).not_index]
  change (Members.listed (("--", Datum.ofItems []) :: kept key values)).map (·.1) = _
  rw [Members.listed_eq_self hindex, kept, entries, List.map_cons, List.map_map]
  rfl

/-- No fault is found in known options that have values where they take values. -/
theorem usageError?_holding (hknown : ∀ v ∈ values, v.1 ∈ c.options)
    (htexts : ∀ o ∈ c.options, o.takesValue = true → ∀ v ∈ given o values, ∀ b, v ≠ .bool b) :
    (holding c values).usageError? = none := by
  have hnames : ∀ name ∈ (holding c values).optionNames, name = "--" ∨
      name ∈ c.allOptions.flatMap (·.names) := by
    rw [optionNames_holding hvalues]
    refine List.forall_mem_cons.mpr ⟨Or.inl rfl, fun name hname => Or.inr ?_⟩
    obtain ⟨o, ho, rfl⟩ := List.mem_map.mp hname
    obtain ⟨v, hv, rfl⟩ := mem_givenOptions.mp ho
    refine List.mem_flatMap.mpr ⟨v.1, List.mem_append_right _ (hknown v hv), ?_⟩
    rw [names_eq v.1 (hvalues v hv).documented]
    exact List.mem_singleton_self _
  have hallow : Additions.isOn [] "allowUnknownOptions" = false := isOn_nil _ (by decide)
  have hrequired : Additions.isOn [] "required" = false := isOn_nil _ (by decide)
  have hunknown : (holding c values).optionNames.find? (fun name => name ≠ "--" &&
      !(c.allOptions.flatMap (·.names)).contains name) = none := by
    rw [List.find?_eq_none]
    intro name hname
    rcases hnames name hname with rfl | hmem
    · simp
    · simp only [List.contains_iff_mem.mpr hmem]
      simp
  rw [usageError?]
  simp only [show (holding c values).command = c from rfl,
    show (holding c values).additions = [] from rfl, hallow, hrequired, Bool.not_false,
    Bool.true_and, Bool.or_false, hunknown]
  rw [List.findSome?_eq_none_iff]
  intro o ho
  by_cases htakes : o.takesValue = true
  · have hglobal : ∀ o ∈ globalOptions, o.takesValue ≠ true := by decide
    have ho := (List.mem_append.mp ho).resolve_left fun h => hglobal o h htakes
    have hdocumented := mem_documented ho
    have hne := collected_ne_bool (htexts o ho htakes)
    -- The option has no truth value, so none is missing.
    rw [names_eq o hdocumented]
    simp only [List.getLastD_cons, List.getLastD_nil, option_key hvalues hdocumented]
  · simp only [htakes]
    split <;> rfl

end Values

end Invocation

namespace Mention

variable {c : Command} {ms : List (Mention c)} {values : List (OptionUsage × Datum)}
  {word : String} {o : OptionUsage}

theorem exists_adds (h : List.Forall₂ (Adds word) ms values) : ∀ v ∈ values,
    ∃ m : Mention c, m.Adds word v := by
  induction h with
  | nil => rintro v ⟨⟩
  | cons hm _ ih => exact List.forall_mem_cons.mpr ⟨⟨_, hm⟩, ih⟩

theorem areValues_of_adds (h : List.Forall₂ (Adds word) ms values) : AreValues values := by
  intro v hv
  obtain ⟨m, hm⟩ := exists_adds h v hv
  exact hm.isValue

theorem Adds.fst {m : Mention c} {v : OptionUsage × Datum} (h : m.Adds word v) :
    v.1 = m.option := by
  rcases h with rfl | ⟨-, rfl⟩ <;> rfl

theorem given_of_takesValue (h : List.Forall₂ (Adds word) ms values)
    (hvalue : o.takesValue = true) :
    given o values = (ms.filterMap (textFor? o)).map Flags.valueOf := by
  induction h with
  | nil => rfl
  | @cons m v ms values hm hms ih =>
    rw [given_cons, hm.fst]
    by_cases ho : m.option = o
    · have htext : m.text?.isSome = true := by rw [← takesValue_eq, ho, hvalue]
      obtain ⟨text, htext⟩ := Option.isSome_iff_exists.mp htext
      have hsnd : v.2 = Flags.valueOf text := by
        rcases hm with rfl | ⟨hnone, -⟩
        · simp [value, htext]
        · rw [htext] at hnone
          cases hnone
      have hfor : textFor? o m = some text := by simp [textFor?, ho, htext]
      rw [if_pos ho, ih, hsnd, List.filterMap_cons_some hfor, List.map_cons]
    · have hfor : textFor? o m = none := by simp [textFor?, ho]
      rw [if_neg ho, ih, List.filterMap_cons_none hfor]

theorem given_ne_nil_iff (h : List.Forall₂ (Adds word) ms values) :
    given o values ≠ [] ↔ ∃ m ∈ ms, m.option = o := by
  induction h with
  | nil => simp [given]
  | @cons m v ms values hm hms ih =>
    rw [given_cons, hm.fst, List.exists_mem_cons_iff, ← ih]
    by_cases ho : m.option = o <;> simp [ho]

theorem isOn_given (h : List.Forall₂ (Adds word) ms values) (hword : word ≠ "")
    (hvalue : o.takesValue = false) : ∀ v ∈ given o values, v.isOn = true := by
  induction h with
  | nil => rintro v ⟨⟩
  | @cons m v ms values hm hms ih =>
    rw [given_cons, hm.fst]
    split
    next ho =>
      refine List.forall_mem_cons.mpr ⟨?_, ih⟩
      have htext : m.text? = none := by
        rw [← Option.not_isSome_iff_eq_none, ← takesValue_eq, ho, hvalue]
        exact Bool.false_ne_true
      rcases hm with rfl | ⟨-, rfl⟩
      · simp [value, htext, Datum.isOn]
      · simp [Datum.isOn, hword]
    next => exact ih

end Mention

end AgentPrompts.CommandLine
