import AgentPrompts.Proofs.CommandLine.Additions
import AgentPrompts.Proofs.CommandLine.Kept
import AgentPrompts.Proofs.CommandLine.Reading

/-! # Options held by invocations

What a flag keeps stands under the name of its option, for the command that is chosen as for
the others. Dotted names may change a record or list that an option holds into another one;
they leave a single value as it is.
-/

namespace AgentPrompts.CommandLine

variable {name key : String} {vs : List Datum} {ms : Members Datum}

theorem nameParts_inj {name other : String} (h : nameParts name = nameParts other) :
    name = other := by
  have hparts : name.toList.splitOn '.' = other.toList.splitOn '.' :=
    List.map_injective_iff.mpr (fun _ _ => String.ofList_injective) h
  have hjoin := congrArg (List.intercalate ['.']) hparts
  rw [List.intercalate_splitOn, List.intercalate_splitOn] at hjoin
  exact String.toList_inj.mp hjoin

def HoldsUnder (key : String) (vs : List Datum) (options : Datum) : Prop :=
  ∃ ms p w, options = .made none ms p ∧ Members.get? key ms = some w ∧ Holds vs w

/-- Options in the middle of a run: the values are held already, or they are still to come. -/
def HeldSoFar (key : String) (vs : List Datum) (rest : Members Datum)
    (options : Datum × Additions) : Prop :=
  (∀ m ∈ rest, m.1 = key → Holds vs m.2) ∧ (HoldsUnder key vs options.1 ∨
    (∃ m ∈ rest, m.1 = key) ∧ ∃ ms p, options.1 = .made none ms p)

theorem HoldsUnder.assign {names : List String} {v options options' : Datum}
    {additions additions' : Additions} (h : HoldsUnder key vs options)
    (hkey : key ≠ Datum.parentName) (hvs : ∀ v ∈ vs, IsScalar v) (hnames : names ≠ [key])
    (hassign : Datum.assign v names additions options = .ok (options', additions')) :
    HoldsUnder key vs options' := by
  obtain ⟨ms, p, w, rfl, hw, hholds⟩ := h
  obtain ⟨ms', p', w', rfl, hw', hleaves⟩ :=
    Datum.leaves_member_of_assign hassign hnames hkey hw (hholds.isAbsent hvs)
  exact ⟨ms', p', w', rfl, hw', hholds.leaves hleaves hvs⟩

theorem holdsUnder_of_set {v options' : Datum} {additions additions' : Additions} {p : Datum}
    (hkey : key ≠ Datum.parentName) (hv : Holds vs v)
    (hset : Datum.set key v additions (.made none ms p) = .ok (options', additions')) :
    HoldsUnder key vs options' := by
  obtain ⟨ms', rfl, hw⟩ := Datum.set_record_self hset hkey
  exact ⟨ms', p, v, rfl, hw, hv⟩

theorem HeldSoFar.assign {m : String × Datum} {rest : Members Datum} {options options' : Datum}
    {additions additions' : Additions} (h : HeldSoFar key vs (m :: rest) (options, additions))
    (hkey : IsKey key) (hvs : ∀ v ∈ vs, IsScalar v)
    (hassign : Datum.assign m.2 (nameParts m.1) additions options = .ok (options', additions')) :
    HeldSoFar key vs rest (options', additions') := by
  obtain ⟨hm, hrest⟩ := List.forall_mem_cons.mp h.1
  refine ⟨hrest, ?_⟩
  by_cases hname : m.1 = key
  · -- The option is set, whatever it held before.
    rw [hname, hkey.parts] at hassign
    have hassign := Datum.set_of_assign hassign
    rcases h.2 with ⟨ms, p, _, rfl, -⟩ | ⟨-, ms, p, rfl⟩
    · exact Or.inl (holdsUnder_of_set hkey.not_parent (hm hname) hassign)
    · exact Or.inl (holdsUnder_of_set hkey.not_parent (hm hname) hassign)
  · have hparts : nameParts m.1 ≠ [key] := fun hparts =>
      hname (nameParts_inj (hparts.trans hkey.parts.symm))
    rcases h.2 with hholds | ⟨⟨m', hm', hkey'⟩, ms, p, rfl⟩
    · exact Or.inl (hholds.assign hkey.not_parent hvs hparts hassign)
    · have hstill : m' ∈ rest := by
        rcases List.mem_cons.mp hm' with rfl | hm'
        · exact absurd hkey' hname
        · exact hm'
      exact Or.inr ⟨⟨m', hstill, hkey'⟩, Datum.exists_record_of_assign hassign⟩

theorem holds_of_mem_ofList (hkept : Kept name key vs ms) (hne : vs ≠ []) {m : String × Datum}
    (hm : m ∈ Members.ofList ((Members.listed ms).map fun m => (optionName m.1, m.2)))
    (hkey : m.1 = key) : Holds vs m.2 := by
  obtain ⟨m', hm', rfl⟩ := List.mem_map.mp (Members.mem_of_mem_ofList hm)
  have hmem := Members.mem_listed.mp hm'
  have hget := hkept.distinct.get?_eq_some hmem
  rw [hkept.only m' hmem hkey] at hget
  rcases hkept.held with ⟨rfl, -⟩ | ⟨d, hd, hholds⟩
  · exact absurd rfl hne
  · obtain rfl := Option.some_inj.mp (hd.symm.trans hget)
    exact hholds

theorem exists_mem_ofList_key (hkept : Kept name key vs ms) (hoption : optionName name = key)
    (hne : vs ≠ []) :
    ∃ m ∈ Members.ofList ((Members.listed ms).map fun m => (optionName m.1, m.2)), m.1 = key := by
  rcases hkept.held with ⟨rfl, -⟩ | ⟨d, hd, -⟩
  · exact absurd rfl hne
  · have hmem := Members.mem_listed.mpr (Members.mem_of_get?_eq_some hd)
    obtain ⟨m, hm, hname⟩ := Members.exists_mem_ofList
      (List.mem_map_of_mem (f := fun m => (optionName m.1, m.2)) hmem)
    exact ⟨m, hm, hname.trans hoption⟩

/-- Options hold under the name of an option what its flag keeps. -/
theorem holdsUnder_of_optionsOf {rest : List String} {flags : Flags} {options : Datum}
    {additions additions' : Additions} (hkept : Kept name key vs flags.members)
    (hoption : optionName name = key) (hkey : IsKey key) (hne : vs ≠ [])
    (hvs : ∀ v ∈ vs, IsScalar v)
    (h : optionsOf (noOptions rest) flags additions = .ok (options, additions')) :
    HoldsUnder key vs options := by
  have hstep : ∀ (m : String × Datum) (assignments : Members Datum)
      (state state' : Datum × Additions), HeldSoFar key vs (m :: assignments) state →
      (if m.1 = Flags.wordsName then pure state
        else Datum.assign m.2 (nameParts m.1) state.2 state.1) = .ok state' →
      HeldSoFar key vs assignments state' := by
    intro m assignments state state' hstate hassign
    split at hassign
    next hwords =>
      -- The plain words are passed over; they do not stand under the name of the option.
      obtain rfl := Except.ok.inj hassign
      refine ⟨fun m' hm' => hstate.1 m' (List.mem_cons_of_mem _ hm'), hstate.2.imp_right ?_⟩
      rintro ⟨⟨m', hm', hkey'⟩, hrecord⟩
      rcases List.mem_cons.mp hm' with rfl | hm'
      · exact absurd (hkey'.symm.trans hwords) hkey.not_words
      · exact ⟨⟨m', hm', hkey'⟩, hrecord⟩
    next => exact hstate.assign hkey hvs hassign
  have hheld := foldlM_keeps (HeldSoFar key vs) hstep
    ⟨fun m hm hname => holds_of_mem_ofList hkept hne hm hname,
      Or.inr ⟨exists_mem_ofList_key hkept hoption hne, _, _, rfl⟩⟩ h
  rcases hheld.2 with hholds | ⟨⟨m, hm, -⟩, -⟩
  · exact hholds
  · cases hm

namespace Invocation

variable {args : List String} {i : Invocation}

theorem holds_option (hadds : AddsNothing args) (hi : Invocation.ofArgs args = .ok i)
    (hflag : IsFlagOf name key) (hkey : IsKey key) (hswitch : name ∉ i.command.switches)
    (honly : GivesOnly name key (items (args.takeWhile (· ≠ "--"))))
    (hne : valuesFor name (items (args.takeWhile (· ≠ "--"))) ≠ []) :
    Holds (valuesFor name (items (args.takeWhile (· ≠ "--")))) (i.option key) := by
  obtain ⟨p, hparsed, htaken⟩ := hadds.exists_parsed hi
  rw [Parsed.ofArgs_eq] at hparsed
  obtain ⟨flags, hflags, hparsed⟩ := exists_of_bind_eq_ok hparsed
  obtain ⟨r, hassigned, rfl⟩ := exists_of_map_eq_ok hparsed
  have hkept := kept_of_ofItems hflag hswitch honly (ok_of_mapError_eq_ok hflags)
  obtain ⟨ms, parent, w, hrecord, hw, hholds⟩ := holdsUnder_of_optionsOf hkept hflag.option hkey
    hne isScalar_of_mem_valuesFor (ok_of_mapError_eq_ok hassigned)
  rw [option, htaken.options, hrecord, Datum.get_of_get? hkey.not_parent hw]
  exact hholds

end Invocation

end AgentPrompts.CommandLine
