import AgentPrompts.Proofs.CommandLine.Additions
import AgentPrompts.Proofs.CommandLine.Reading

/-! # Command lines parsed

Flags with values of documented options become options under the names of the options. The
plain word that is left chooses the command; without one the unnamed command is chosen.
-/

namespace AgentPrompts.CommandLine

open OptionUsage

variable {words : List Datum} {values : List (OptionUsage × Datum)}

theorem assign_key {o : OptionUsage} (ho : o ∈ documented) (v : Datum) (ms : Members Datum)
    (p : Datum) : Datum.assign v (nameParts o.key) [] (.made none ms p) =
      .ok (.made none (Members.set o.key v ms) p, []) := by
  have hkey := isKey_key o ho
  rw [hkey.parts, Datum.assign, Datum.set, if_neg hkey.not_parent]
  rfl

theorem foldlM_members {ε : Type}
    {f : Datum × Additions → String × Datum → Except ε (Datum × Additions)}
    {p : Datum} {named : Members Datum} (ms : Members Datum)
    (h : ∀ m ∈ named, ∀ ms, f (.made none ms p, []) m =
      .ok (.made none (Members.set m.1 m.2 ms) p, [])) :
    named.foldlM f (.made none ms p, []) =
      .ok (.made none (named.foldl (fun ms m => Members.set m.1 m.2 ms) ms) p, []) := by
  induction named generalizing ms with
  | nil => rfl
  | cons m named ih =>
    rw [foldlM_cons_ok (h m List.mem_cons_self ms),
      ih _ fun m hm => h m (List.mem_cons_of_mem _ hm)]
    rfl

section Flags

theorem mem_kept {name : OptionUsage → String} {m : String × Datum} (h : m ∈ kept name values) :
    ∃ v ∈ values, name v.1 = m.1 := by
  obtain ⟨o, ho, rfl⟩ := List.mem_map.mp h
  obtain ⟨v, hv, rfl⟩ := mem_givenOptions.mp ho
  exact ⟨v, hv, rfl⟩

variable (hvalues : AreValues values)
include hvalues

theorem name_cases {m : String × Datum} (h : m ∈ (flagsOf words values).members) :
    m.1 = Flags.wordsName ∨ IsFree m.1 := by
  rcases List.mem_cons.mp h with rfl | h
  · exact Or.inl rfl
  · obtain ⟨v, hv, hname⟩ := mem_kept h
    exact Or.inr (hname ▸ isFree_flagName v.1 (hvalues v hv).documented)

theorem listed_flagsOf : Members.listed (flagsOf words values).members =
    (flagsOf words values).members := by
  have hwords : Members.index? Flags.wordsName = none := by decide
  apply Members.listed_eq_self
  intro m hm
  rcases name_cases hvalues hm with he | hfree
  · rw [he, hwords]
  · exact hfree.not_index

theorem names_flagsOf : (flagsOf words values).names =
    (flagsOf words values).members.map Prod.fst := by
  have hnames : (flagsOf words values).names =
      (Members.listed (flagsOf words values).members).map Prod.fst := List.append_nil _
  rw [hnames, listed_flagsOf hvalues]

theorem addAliases_flagsOf : (flagsOf words values).addAliases = flagsOf words values := by
  have hwords : Flags.alias? Flags.wordsName = none := by decide
  rw [Flags.addAliases, names_flagsOf hvalues, List.foldl_map, Members.foldl_eq_self]
  intro m hm
  rw [Flags.addAlias]
  rcases name_cases hvalues hm with he | hfree
  · simp only [he, hwords]
  · simp only [hfree.not_alias]

/-- Flags of documented options are kept as they were collected. -/
theorem ofItems_of_foldlM {switches : List String} {is : List Item}
    (h : is.foldlM (Flags.addItem (.ofSwitches switches) []) Flags.empty =
      .ok (flagsOf words values)) :
    Flags.ofItems (.ofSwitches switches) [] is = .ok (flagsOf words values) := by
  have hreserved : (flagsOf words values).names.any (· ∈ Flags.reservedNames) = false := by
    rw [names_flagsOf hvalues, List.any_map, List.any_eq_false]
    intro m hm
    rw [Function.comp_apply]
    rcases name_cases hvalues hm with he | hfree
    · rw [he]
      decide
    · simpa using hfree.not_reserved
  rw [Flags.ofItems_eq, h, Except.bind, hreserved, addAliases_flagsOf hvalues]
  rfl

theorem map_optionName : (kept flagName values).map (fun m => (optionName m.1, m.2)) =
    kept key values := by
  unfold kept entries
  rw [List.map_map]
  refine List.map_congr_left fun o ho => ?_
  have hname := optionName_flagName o (mem_documented_of_given hvalues o ho)
  simp only [Function.comp_apply, hname]

theorem nodup_kept_key : ((kept key values).map Prod.fst).Nodup := by
  have hdoc := mem_documented_of_given hvalues
  unfold kept entries
  rw [List.map_map]
  exact (nodup_givenOptions values).map_on fun a ha b hb h => key_inj a (hdoc a ha) b (hdoc b hb) h

theorem key_of_mem_kept : ∀ m ∈ kept key values, ∃ o ∈ documented, o.key = m.1 := by
  intro m h
  obtain ⟨v, hv, hname⟩ := mem_kept h
  exact ⟨v.1, (hvalues v hv).documented, hname⟩

theorem nodup_cons_kept {name : String} (h : ∀ o ∈ documented, o.key ≠ name) (v : Datum) :
    (((name, v) :: kept key values).map Prod.fst).Nodup := by
  refine List.nodup_cons.mpr ⟨fun hm => ?_, nodup_kept_key hvalues⟩
  obtain ⟨m, hm, hname⟩ := List.mem_map.mp hm
  obtain ⟨o, ho, hkey⟩ := key_of_mem_kept hvalues m hm
  exact h o ho (hkey.trans hname)

theorem optionsOf_flagsOf :
    optionsOf (noOptions []) (flagsOf words values) [] = .ok (optionsWith values, []) := by
  have hdoc := key_of_mem_kept hvalues
  have hwords : optionName Flags.wordsName = Flags.wordsName := by decide
  have hindex : ∀ m ∈ (Flags.wordsName, Datum.ofItems words) :: kept key values,
      Members.index? m.1 = none := by
    have hname : Members.index? Flags.wordsName = none := by decide
    refine List.forall_mem_cons.mpr ⟨hname, fun m hm => ?_⟩
    obtain ⟨o, ho, hkey⟩ := hdoc m hm
    rw [← hkey, (isKey_key o ho).not_index]
  have hlist : Members.ofList ((Members.listed (flagsOf words values).members).map
      fun m => (optionName m.1, m.2)) = (Flags.wordsName, .ofItems words) :: kept key values := by
    rw [listed_flagsOf hvalues, flagsOf, List.map_cons, map_optionName hvalues, hwords,
      Members.ofList, Members.foldl_set _ (nodup_cons_kept hvalues
        (fun o ho => (isKey_key o ho).not_words) _), List.nil_append, Members.listed_eq_self hindex]
  have hset : (kept key values).foldl (fun ms m => Members.set m.1 m.2 ms)
      [("--", Datum.ofItems [])] = ("--", Datum.ofItems []) :: kept key values :=
    Members.foldl_set _ (nodup_cons_kept hvalues (fun o ho => (isKey_key o ho).not_dashes) _)
  rw [optionsOf]
  simp only [hlist]
  refine (foldlM_cons_ok rfl _).trans ?_
  rw [noOptions, foldlM_members]
  · exact congrArg (fun ms => Except.ok (Datum.made none ms _, [])) hset
  · intro m hm ms
    obtain ⟨o, ho, hkey⟩ := hdoc m hm
    simp only [← hkey, if_neg (isKey_key o ho).not_words]
    exact assign_key ho _ _ _

end Flags

section Parsing

variable {args : List String}

theorem ofArgs_of_foldlM (hvalues : AreValues values) (hargs : "--" ∉ args)
    {c : Command} (h : (items args).foldlM (Flags.addItem (.ofSwitches c.switches) []) Flags.empty =
      .ok (flagsOf words values)) : Parsed.ofArgs c args [] =
        .ok ⟨.ofItems words, optionsWith values, []⟩ := by
  have hne : ∀ arg ∈ args, decide (arg ≠ "--") = true := by
    intro arg harg
    rw [decide_eq_true_eq]
    rintro rfl
    exact hargs harg
  rw [Parsed.ofArgs_eq, List.takeWhile_eq_self_iff.mpr hne, List.dropWhile_eq_nil_iff.mpr hne,
    ofItems_of_foldlM hvalues h, List.drop_nil]
  simp only [Except.mapError, Except.bind, optionsOf_flagsOf hvalues]
  rfl

/-- A command line that is read in the same way for every command. -/
def ReadsAs (args : List String) (words : List Datum) (options : Datum) : Prop :=
  ∀ c : Command, Parsed.ofArgs c args [] = .ok ⟨.ofItems words, options, []⟩

variable {options : Datum}

theorem readings_of_readsAs (h : ReadsAs args words options) (cs : List Command) :
    readings args cs [] = .ok (cs.map fun c => (c, ⟨.ofItems words, options, []⟩), []) := by
  induction cs with
  | nil => rfl
  | cons c cs ih =>
    rw [readings, h c]
    simp only [bind, Except.bind, ih]
    rfl

theorem ofArgs_of_word {c : Command} (hc : c ≠ .unnamed)
    (h : ReadsAs args [.text c.word] options) :
    Invocation.ofArgs args = .ok ⟨c, .ofItems [], options, []⟩ := by
  have hwords : firstWord (.ofItems [.text c.word]) [] = .text c.word := firstWord_ofItems _
  have hafter : afterFirst (.ofItems [.text c.word]) = .ofItems [] := by
    have hlist : (Datum.ofItems [.text c.word]).isList = true := rfl
    rw [afterFirst, if_pos hlist, Datum.items_ofItems]
    rfl
  rw [Invocation.ofArgs, readings_of_readsAs h]
  cases c with
  | unnamed => exact absurd rfl hc
  | spawnPrompts =>
    simp [bind, Except.bind, Command.all, Command.word] at hwords hafter ⊢
    simp [hwords, hafter, isText]
    rfl
  | prompt =>
    simp [bind, Except.bind, Command.all, Command.word] at hwords hafter ⊢
    simp [hwords, hafter, isText]
    rfl

theorem ofArgs_of_noWord (h : ReadsAs args [] options) :
    Invocation.ofArgs args = .ok ⟨.unnamed, .ofItems [], options, []⟩ := by
  have hwords : firstWord (.ofItems []) [] = .absent := firstWord_ofItems []
  rw [Invocation.ofArgs, readings_of_readsAs h]
  simp [bind, Except.bind, Command.all, hwords, isText, h .unnamed]
  rfl

end Parsing

end AgentPrompts.CommandLine
