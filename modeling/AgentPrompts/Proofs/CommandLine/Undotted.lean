import AgentPrompts.Proofs.CommandLine.CamelCase
import AgentPrompts.Proofs.CommandLine.Words

/-! # Flags without dots

Without a dot an option is a member of the options themselves. Setting it reaches no other object,
so a command line on which no flag has a dot in its name adds nothing.
-/

namespace AgentPrompts.CommandLine

theorem dot_not_mem_camelCase {cs : List Char} (h : '.' ∉ cs) : '.' ∉ camelCase cs := by
  fun_induction camelCase cs with
  | case1 a d b cs hdash ih =>
    simp only [Bool.and_eq_true] at hdash
    have hupper : '.' ≠ b.toUpper := by
      intro he
      have htrue := isUpper_toUpper hdash.2
      rw [← he] at htrue
      cases htrue
    simp only [List.mem_cons, not_or] at h ⊢
    exact ⟨h.1, hupper, ih h.2.2.2⟩
  | case2 a d b cs _ ih =>
    rw [List.mem_cons, not_or] at h ⊢
    exact ⟨h.1, ih h.2⟩
  | case3 => exact h

theorem nameParts_optionName {flag : String} (h : '.' ∉ flag.toList) :
    nameParts (optionName flag) = [optionName flag] := by
  have hdot : '.' ∉ (optionName flag).toList := by
    rw [toList_optionName h]
    exact dot_not_mem_camelCase h
  rw [nameParts, List.splitOn_eq_singleton hdot, List.map_singleton, String.ofList_toList]

section Records

variable {name : String} (v : Datum) (additions : Additions) (ms : Members Datum) (parent : Datum)

theorem exists_set_record (name : String) : ∃ ms' parent', Datum.set name v additions (.made none ms parent) =
    .ok (.made none ms' parent', additions) := by
  rw [Datum.set]
  split
  next =>
    cases hobject : v.isObject with
    | true => exact ⟨ms, v, by simp [Datum.setParent, hobject, Except.map]⟩
    | false => exact ⟨ms, parent, by simp [Datum.setParent, hobject, Except.map]⟩
  next => exact ⟨_, _, rfl⟩

/-- A name of one part is set in a record itself, and not in a shared object. -/
theorem exists_assign_record (h : nameParts name = [name]) : ∃ ms' parent',
    Datum.assign v (nameParts name) additions (.made none ms parent) =
      .ok (.made none ms' parent', additions) := by
  obtain ⟨ms', parent', hset⟩ := exists_set_record v additions ms parent name
  refine ⟨ms', parent', ?_⟩
  rw [h, Datum.assign, hset]
  rfl

theorem exists_foldlM_assign {named : Members Datum} (h : ∀ m ∈ named, nameParts m.1 = [m.1]) :
    ∃ options, named.foldlM (fun (state : Datum × Additions) m =>
      if m.1 = Flags.wordsName then pure state
      else Datum.assign m.2 (nameParts m.1) state.2 state.1) (.made none ms parent, additions) =
        Except.ok (options, additions) := by
  induction named generalizing ms parent with
  | nil => exact ⟨_, rfl⟩
  | cons m named ih =>
    obtain ⟨hm, hnamed⟩ := List.forall_mem_cons.mp h
    rw [List.foldlM_cons]
    split
    next => exact ih ms parent hnamed
    next =>
      obtain ⟨ms', parent', hassign⟩ := exists_assign_record m.2 additions ms parent hm
      rw [hassign]
      exact ih ms' parent' hnamed

end Records

theorem exists_optionsOf {flags : Flags} (h : ∀ m ∈ flags.members, '.' ∉ m.1.toList)
    (rest : List String) (additions : Additions) : ∃ options,
      optionsOf (noOptions rest) flags additions = .ok (options, additions) := by
  refine exists_foldlM_assign additions _ _ fun m hm => ?_
  obtain ⟨flag, hflag, rfl⟩ := List.mem_map.mp (Members.mem_of_mem_ofList hm)
  exact nameParts_optionName (h flag (Members.mem_listed.mp hflag))

variable {switches args : List String}

theorem exists_item_of_readFlags {m : String × Datum}
    (h : m ∈ (readFlags switches args).addAliases.members) :
    (∃ item ∈ items (args.takeWhile (· ≠ "--")), item.name? = some m.1) ∨
      m.1 ∈ ["h", "help", "v", "version"] := by
  rcases Flags.mem_names_of_addAliases (List.mem_map_of_mem h) with hname | hglobal
  · rcases (Flags.mem_names_foldl_iff _).mp hname with hnone | ⟨hitem, -⟩
    · cases hnone
    · exact Or.inl hitem
  · exact Or.inr hglobal

/-- A command line on which no flag has a dot in its name adds nothing. -/
theorem addsNothing_of_undotted (h : ∀ item ∈ items (args.takeWhile (· ≠ "--")),
    ∀ name ∈ item.name?, '.' ∉ name.toList) : AddsNothing args := by
  intro c
  have hflags : ∀ m ∈ (readFlags c.switches args).addAliases.members, '.' ∉ m.1.toList := by
    intro m hm
    rcases exists_item_of_readFlags hm with ⟨item, hitem, hname⟩ | hglobal
    · exact h item hitem m.1 hname
    · have hplain : ∀ name ∈ ["h", "help", "v", "version"], '.' ∉ name.toList := by decide
      exact hplain m.1 hglobal
  rw [addedBy, Parsed.ofArgs_apart]
  cases readWords c.switches args with
  | error e => rfl
  | ok words =>
    obtain ⟨options, hoptions⟩ :=
      exists_optionsOf hflags ((args.dropWhile (· ≠ "--")).drop 1) []
    by_cases hreserved :
        (readFlags c.switches args).names.any (· ∈ Flags.reservedNames) = true
    · simp only [readOptions, if_pos hreserved]
      rfl
    · simp only [readOptions, if_neg hreserved, hoptions]
      rfl

end AgentPrompts.CommandLine
