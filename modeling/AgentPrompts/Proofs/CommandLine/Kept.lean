import Mathlib.Data.List.Basic
import AgentPrompts.Proofs.CommandLine.Collected
import AgentPrompts.Proofs.CommandLine.Naming
import AgentPrompts.Proofs.Datum.Assigned
import AgentPrompts.Proofs.Members.Listed

/-! # Values kept for a flag

While items are collected, a flag keeps the values that it is given, whatever else the items
give to other flags and to the words: one value as it is, more than one as a list.
-/

namespace AgentPrompts.CommandLine

/-- What is held of values: the only one, or a record or list for several. -/
def Holds (vs : List Datum) (d : Datum) : Prop := vs = [d] ∨ 1 < vs.length ∧ d.isMade = true

section Holds

variable {vs : List Datum} {v d d' : Datum}

theorem IsScalar.isMade (h : IsScalar v) : v.isMade = false := by
  have hobject := h.isObject
  cases v with
  | made => cases hobject
  | _ => rfl

theorem Holds.isAbsent (h : Holds vs d) (hvs : ∀ v ∈ vs, IsScalar v) : d.isAbsent = false := by
  rcases h with rfl | ⟨-, hmade⟩
  · exact (hvs d (List.mem_singleton_self d)).isAbsent
  · cases d with
    | absent => cases hmade
    | _ => rfl

theorem Holds.leaves (h : Holds vs d) (hleaves : Datum.Leaves d d')
    (hvs : ∀ v ∈ vs, IsScalar v) : Holds vs d' := by
  rcases h with rfl | ⟨hlength, hmade⟩
  · have hmade := (hvs d (List.mem_singleton_self d)).isMade
    rw [hleaves.eq_of_not_isMade hmade]
    exact Or.inl rfl
  · exact Or.inr ⟨hlength, hleaves.isMade hmade⟩

end Holds

def Item.valueFor? (name : String) : Item → Option Datum
  | .on other => if other = name then some (.bool true) else none
  | .value other text => if other = name then some (Flags.valueOf text) else none
  | _ => none

def valuesFor (name : String) (is : List Item) : List Datum := is.filterMap (Item.valueFor? name)

theorem isScalar_of_mem_valuesFor {name : String} {is : List Item} :
    ∀ v ∈ valuesFor name is, IsScalar v := by
  intro v hv
  obtain ⟨item, -, hitem⟩ := List.mem_filterMap.mp hv
  unfold Item.valueFor? at hitem
  split at hitem
  next =>
    obtain ⟨-, rfl⟩ := Option.ite_some_none_eq_some.mp hitem
    exact isScalar_bool true
  next =>
    obtain ⟨-, rfl⟩ := Option.ite_some_none_eq_some.mp hitem
    exact isScalar_valueOf _
  next => cases hitem

theorem valuesFor_eq_nil {name : String} {is : List Item}
    (h : ∀ item ∈ is, item.name? ≠ some name) : valuesFor name is = [] := by
  rw [valuesFor, List.filterMap_eq_nil_iff]
  intro item hitem
  have hname := h item hitem
  cases item with
  | on other =>
    rw [Item.valueFor?, if_neg]
    rintro rfl
    exact hname rfl
  | value other text =>
    rw [Item.valueFor?, if_neg]
    rintro rfl
    exact hname rfl
  | _ => rfl

/-- A flag that gives its values to an option of its own. A list has no member of its name. -/
structure IsFlagOf (name key : String) : Prop where
  isFree : IsFree name
  not_digits : name.toList.all Char.isDigit = false
  not_length : name ≠ "length"
  not_listed : Datum.sharedMember? [] name (.prototype .list) = none
  option : optionName name = key
  not_words : optionName Flags.wordsName ≠ key
  not_global : ∀ other ∈ ["h", "help", "v", "version"], optionName other ≠ key

/-- Items that give to an option by one flag only, and do not switch it off. -/
structure GivesOnly (name key : String) (is : List Item) : Prop where
  only : ∀ item ∈ is, ∀ other, item.name? = some other → optionName other = key → other = name
  not_off : .off name ∉ is

theorem GivesOnly.of_subset {name key : String} {is is' : List Item} (h : GivesOnly name key is)
    (hsub : is' ⊆ is) : GivesOnly name key is' :=
  ⟨fun item hitem => h.only item (hsub hitem), fun hoff => h.not_off (hsub hoff)⟩

theorem valuesFor_append (name : String) (is is' : List Item) :
    valuesFor name (is ++ is') = valuesFor name is ++ valuesFor name is' :=
  List.filterMap_append

/-- Flags that inherit what every record does, or the members of a list. -/
def Flags.InheritsPlainly (flags : Flags) : Prop :=
  flags.parent = Datum.emptyRecord.parent ∨ ∃ vs, flags.parent = .ofItems vs

section Inherited

variable {name key : String} {v : Datum} {flags flags' : Flags}

theorem get?_ofItems (hdigits : name.toList.all Char.isDigit = false) (vs : List Datum)
    (start : Nat) :
    Members.get? name ((vs.zipIdx start).map fun m => (Datum.indexName m.2, m.1)) = none := by
  rw [Members.get?, List.lookup_eq_none_iff]
  intro m hm
  obtain ⟨item, -, rfl⟩ := List.mem_map.mp hm
  rw [bne_iff_ne]
  rintro rfl
  have hindex : (Datum.indexName item.2).toList.all Char.isDigit = true := by
    rw [Datum.indexName, String.toList_ofList, List.all_eq_true]
    exact fun c hc => Nat.isDigit_of_mem_toDigits (by decide) (by decide) hc
  rw [hindex] at hdigits
  cases hdigits

namespace Flags.InheritsPlainly

theorem isAbsent_get (h : flags.InheritsPlainly) (hflag : IsFlagOf name key)
    (hnone : Members.get? name flags.members = none) : (flags.get [] name).isAbsent = true := by
  have hinherited : Datum.member? [] name flags.parent = none := by
    rcases h with hparent | ⟨vs, hparent⟩
    · rw [hparent]
      exact hflag.isFree.not_inherited
    · rw [hparent, Datum.ofItems, Datum.member?]
      simp only [if_neg hflag.not_length, get?_ofItems hflag.not_digits, Option.none_or]
      exact hflag.not_listed
  rw [Flags.get, record, Datum.get, if_neg hflag.isFree.not_parent, Datum.member?]
  simp only [hnone, Option.none_or, hinherited]
  rfl

theorem replace (h : flags.InheritsPlainly) (hv : v.isObject = true → ∃ vs, v = .ofItems vs)
    (name : String) : (flags.replace name v).InheritsPlainly := by
  unfold Flags.replace
  split
  next =>
    split
    next hobject => exact Or.inr (hv hobject)
    next => exact h
  next => exact h

theorem replace_scalar (h : flags.InheritsPlainly) (hv : IsScalar v) (name : String) :
    (flags.replace name v).InheritsPlainly := by
  refine h.replace (fun hobject => ?_) name
  rw [hv.isObject] at hobject
  cases hobject

theorem add (h : flags.InheritsPlainly) (hv : IsScalar v) (additions : Additions) (name : String) :
    (flags.add additions name v).InheritsPlainly := by
  unfold Flags.add
  simp only
  split
  next => exact h.replace_scalar hv name
  next => split <;> exact h.replace (fun _ => ⟨_, rfl⟩) name

theorem addWord (h : flags.InheritsPlainly) (hadd : flags.addWord v = .ok flags') :
    flags'.InheritsPlainly := by
  have hne : Flags.wordsName ≠ Datum.parentName := by decide
  unfold Flags.addWord at hadd
  split at hadd
  next =>
    obtain rfl := Except.ok.inj hadd
    unfold Flags.replace
    rw [if_neg hne]
    exact h
  next => cases hadd

end Flags.InheritsPlainly

end Inherited

/-- Members among which the values of a flag are kept, and nothing else for its option. -/
structure Kept (name key : String) (vs : List Datum) (ms : Members Datum) : Prop where
  distinct : Members.Distinct ms
  only : ∀ m ∈ ms, optionName m.1 = key → m.1 = name
  held : vs = [] ∧ Members.get? name ms = none ∨
    ∃ d, Members.get? name ms = some d ∧ Holds vs d

namespace Kept

variable {name key other : String} {vs : List Datum} {v d : Datum} {ms : Members Datum}
  {flags flags' : Flags} {additions : Additions}

theorem set_other (h : Kept name key vs ms) (hother : optionName other ≠ key)
    (hne : other ≠ name) : Kept name key vs (ms.set other v) where
  distinct := h.distinct.set
  only m hm hkey := by
    rcases Members.eq_or_mem_of_mem_set hm with rfl | hm
    · exact absurd hkey hother
    · exact h.only m hm hkey
  held := by
    rw [Members.get?_set, if_neg hne.symm]
    exact h.held

theorem set_self (h : Kept name key vs ms) (hv : Holds (vs ++ [v]) d) :
    Kept name key (vs ++ [v]) (ms.set name d) where
  distinct := h.distinct.set
  only m hm hkey := by
    rcases Members.eq_or_mem_of_mem_set hm with rfl | hm
    · rfl
    · exact h.only m hm hkey
  held := Or.inr ⟨d, by rw [Members.get?_set, if_pos rfl], hv⟩

theorem replace_other (h : Kept name key vs flags.members) (hother : optionName other ≠ key)
    (hne : other ≠ name) : Kept name key vs (flags.replace other v).members := by
  unfold Flags.replace
  split
  next => split <;> exact h
  next => exact h.set_other hother hne

theorem add_other (h : Kept name key vs flags.members) (hother : optionName other ≠ key)
    (hne : other ≠ name) : Kept name key vs (flags.add additions other v).members :=
  h.replace_other hother hne

theorem addWord (h : Kept name key vs flags.members) (hflag : IsFlagOf name key)
    (hadd : flags.addWord v = .ok flags') : Kept name key vs flags'.members := by
  unfold Flags.addWord at hadd
  split at hadd
  next =>
    obtain rfl := Except.ok.inj hadd
    exact h.replace_other hflag.not_words hflag.isFree.not_words.symm
  next => cases hadd

/-- A flag that has values finds them again, and one that has none inherits none. -/
theorem holds_add (h : Kept name key vs flags.members) (hflag : IsFlagOf name key)
    (hvs : ∀ v ∈ vs, IsScalar v) (hparent : flags.InheritsPlainly) (v : Datum) :
    Holds (vs ++ [v]) (if (flags.get [] name).isAbsent then v
      else if (flags.get [] name).isList then .ofItems ((flags.get [] name).items ++ [v])
      else .ofItems [flags.get [] name, v]) := by
  rcases h.held with ⟨rfl, hnone⟩ | ⟨d, hd, hholds⟩
  · rw [if_pos (hparent.isAbsent_get hflag hnone)]
    exact Or.inl rfl
  · have hget : flags.get [] name = d := Datum.get_of_get? hflag.isFree.not_parent hd
    have hseveral : 1 < (vs ++ [v]).length := by
      rcases hholds with rfl | ⟨hlength, -⟩
      · simp
      · rw [List.length_append]
        omega
    rw [hget, hholds.isAbsent hvs, if_neg Bool.false_ne_true]
    split <;> exact Or.inr ⟨hseveral, rfl⟩

theorem add_self (h : Kept name key vs flags.members) (hflag : IsFlagOf name key)
    (hvs : ∀ v ∈ vs, IsScalar v) (hparent : flags.InheritsPlainly) :
    Kept name key (vs ++ [v]) (flags.add [] name v).members := by
  rw [Flags.add, Flags.replace, if_neg hflag.isFree.not_parent]
  exact h.set_self (h.holds_add hflag hvs hparent v)

theorem exists_add_of_addItem {switches : List String} {text : String}
    (h : flags.addItem (.ofSwitches switches) [] (.value other text) = .ok flags') :
    ∃ flags₁ v, (flags₁ = flags ∨ flags.addWord (Flags.valueOf text) = .ok flags₁) ∧
      IsScalar v ∧ flags' = flags₁.add [] other v := by
  rw [Flags.addItem_value] at h
  split at h
  next =>
    split at h
    next => exact ⟨flags, _, Or.inl rfl, isScalar_bool _, (Except.ok.inj h).symm⟩
    next =>
    split at h
    next => exact ⟨flags, _, Or.inl rfl, isScalar_bool _, (Except.ok.inj h).symm⟩
    next =>
    obtain ⟨flags₁, hword, rfl⟩ := exists_of_map_eq_ok h
    exact ⟨flags₁, _, Or.inr hword, isScalar_bool _, rfl⟩
  next => exact ⟨flags, _, Or.inl rfl, isScalar_valueOf text, (Except.ok.inj h).symm⟩

theorem addItem {switches : List String} {item : Item} (h : Kept name key vs flags.members)
    (hparent : flags.InheritsPlainly) (hflag : IsFlagOf name key) (hswitch : name ∉ switches)
    (hvs : ∀ v ∈ vs, IsScalar v)
    (hitem : GivesOnly name key [item])
    (hadd : flags.addItem (.ofSwitches switches) [] item = .ok flags') :
    Kept name key (vs ++ valuesFor name [item]) flags'.members := by
  have honly {other : String} (hname : item.name? = some other) (hne : other ≠ name) :
      optionName other ≠ key := fun hkey =>
    hne (hitem.only item (List.mem_singleton_self _) other hname hkey)
  cases item with
  | word text =>
    rw [valuesFor, List.filterMap_cons_none rfl, List.filterMap_nil, List.append_nil]
    exact h.addWord hflag hadd
  | off other =>
    obtain rfl := Except.ok.inj hadd
    have hne : other ≠ name := by
      rintro rfl
      exact hitem.not_off (List.mem_singleton_self _)
    rw [valuesFor, List.filterMap_cons_none rfl, List.filterMap_nil, List.append_nil]
    exact h.replace_other (honly rfl hne) hne
  | on other =>
    rw [Flags.addItem_on] at hadd
    obtain rfl := Except.ok.inj hadd
    by_cases hne : other = name
    · subst hne
      have hvalue : valuesFor other [.on other] = [.bool true] := by
        simp [valuesFor, Item.valueFor?]
      rw [hvalue]
      exact h.add_self hflag hvs hparent
    · have hvalue : valuesFor name [.on other] = [] := by
        simp [valuesFor, Item.valueFor?, hne]
      rw [hvalue, List.append_nil]
      exact h.add_other (honly rfl hne) hne
  | value other text =>
    by_cases hne : other = name
    · subst hne
      have hvalue : valuesFor other [.value other text] = [Flags.valueOf text] := by
        simp [valuesFor, Item.valueFor?]
      rw [Flags.addItem_value, if_neg hswitch] at hadd
      obtain rfl := Except.ok.inj hadd
      rw [hvalue]
      exact h.add_self hflag hvs hparent
    · have hvalue : valuesFor name [.value other text] = [] := by
        simp [valuesFor, Item.valueFor?, hne]
      rw [hvalue, List.append_nil]
      obtain ⟨flags₁, v, rfl | hword, -, rfl⟩ := exists_add_of_addItem hadd
      · exact h.add_other (honly rfl hne) hne
      · exact (h.addWord hflag hword).add_other (honly rfl hne) hne

theorem addAliases (h : Kept name key vs flags.members) (hflag : IsFlagOf name key) :
    Kept name key vs flags.addAliases.members := by
  refine List.foldlRecOn (motive := fun acc : Flags => Kept name key vs acc.members)
    flags.names _ h fun acc hacc found _ => ?_
  rw [Flags.addAlias]
  split
  next other hother =>
    have hoption := hflag.not_global other (Flags.globals_of_alias? hother).2
    refine hacc.replace_other hoption ?_
    rintro rfl
    exact hoption hflag.option
  next => exact hacc

end Kept

theorem Flags.InheritsPlainly.addItem {switches : List String} {flags flags' : Flags} {item : Item}
    (h : flags.InheritsPlainly)
    (hadd : flags.addItem (.ofSwitches switches) [] item = .ok flags') :
    flags'.InheritsPlainly := by
  cases item with
  | word text => exact h.addWord hadd
  | off name =>
    obtain rfl := Except.ok.inj hadd
    exact h.replace_scalar (isScalar_bool false) name
  | on name =>
    rw [Flags.addItem_on] at hadd
    obtain rfl := Except.ok.inj hadd
    exact h.add (isScalar_bool true) [] name
  | value name text =>
    obtain ⟨flags₁, v, hword, hv, rfl⟩ := Kept.exists_add_of_addItem hadd
    rcases hword with rfl | hword
    · exact h.add hv [] name
    · exact (h.addWord hword).add hv [] name

/-- Flags in the middle of a run: of the items, some are read and the rest is still to be read. -/
def KeptSoFar (name key : String) (is rest : List Item) (flags : Flags) : Prop :=
  flags.InheritsPlainly ∧
    ∃ done, done ++ rest = is ∧ Kept name key (valuesFor name done) flags.members

/-- Collecting items keeps the values that they give to the flag. -/
theorem kept_of_ofItems {name key : String} {switches : List String} {is : List Item}
    {flags : Flags} (hflag : IsFlagOf name key) (hswitch : name ∉ switches)
    (hitems : GivesOnly name key is)
    (h : Flags.ofItems (.ofSwitches switches) [] is = .ok flags) :
    Kept name key (valuesFor name is) flags.members := by
  rw [Flags.ofItems_eq] at h
  obtain ⟨collected, hfold, h⟩ := exists_of_bind_eq_ok h
  have hstart : Kept name key [] Flags.empty.members :=
    { distinct := List.nodup_singleton _
      only := by
        rintro m hm hkey
        obtain rfl := List.mem_singleton.mp hm
        exact absurd hkey hflag.not_words
      held := Or.inl ⟨rfl, by simp [Flags.empty, Members.get?, hflag.isFree.not_words]⟩ }
  have hstep : ∀ item rest flags flags', KeptSoFar name key is (item :: rest) flags →
      flags.addItem (.ofSwitches switches) [] item = .ok flags' →
        KeptSoFar name key is rest flags' := by
    rintro item rest flags flags' ⟨hparent, done, hdone, hkept⟩ hadd
    have hitem : GivesOnly name key [item] := hitems.of_subset (by simp [← hdone])
    refine ⟨hparent.addItem hadd, done ++ [item], (List.append_assoc ..).trans hdone, ?_⟩
    rw [valuesFor_append]
    exact hkept.addItem hparent hflag hswitch isScalar_of_mem_valuesFor hitem hadd
  -- The invariant speaks of the items that are read so far: each adds its own value to theirs.
  have hread : KeptSoFar name key is [] collected :=
    foldlM_keeps (KeptSoFar name key is) hstep ⟨Or.inl rfl, [], rfl, hstart⟩ hfold
  have hkept : Kept name key (valuesFor name is) collected.members := by
    obtain ⟨-, done, hdone, hkept⟩ := hread
    rw [List.append_nil] at hdone
    exact hdone ▸ hkept
  split at h
  next => cases h
  next =>
    obtain rfl := Except.ok.inj h
    exact hkept.addAliases hflag

end AgentPrompts.CommandLine
