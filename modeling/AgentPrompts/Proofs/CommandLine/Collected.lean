import Mathlib.Data.List.Dedup
import Mathlib.Data.List.Induction
import Mathlib.Logic.Function.Basic
import AgentPrompts.Proofs.CommandLine.Mention
import AgentPrompts.Proofs.CommandLine.Reader
import AgentPrompts.Proofs.Members.Listed

/-! # Values collected by option

The values of documented options are collected in the order in which the options were
first given. An option that is given once has its value, one that is given more than once
a list of its values; nothing is inherited under the names of the options.
-/

namespace AgentPrompts

namespace CommandLine

open OptionUsage

namespace OptionUsage

def key (o : OptionUsage) : String := o.names.headD ""

theorem names_eq : ∀ o ∈ documented, o.names = [o.key] := by
  decide

theorem optionName_flagName : ∀ o ∈ documented, optionName o.flagName = o.key := by
  decide

theorem key_inj : ∀ a ∈ documented, ∀ b ∈ documented, a.key = b.key → a = b := by
  decide

end OptionUsage

/-- A name that is a member of its own in every record, that is no index, has no other name
and is not reserved. -/
structure IsFree (name : String) : Prop where
  not_words : name ≠ Flags.wordsName
  not_parent : name ≠ Datum.parentName
  not_inherited : Datum.sharedMember? [] name (.prototype .object) = none
  not_index : Members.index? name = none
  not_reserved : name ∉ Flags.reservedNames
  not_alias : Flags.alias? name = none

theorem isFree_flagName : ∀ o ∈ documented, IsFree o.flagName := by
  intro o ho
  constructor <;> revert o <;> decide

structure IsScalar (v : Datum) : Prop where
  isAbsent : v.isAbsent = false
  isObject : v.isObject = false

theorem IsScalar.isList {v : Datum} (h : IsScalar v) : v.isList = false := by
  have := h.isObject
  cases v <;> simp_all [Datum.isObject, Datum.isList]

theorem isScalar_bool (b : Bool) : IsScalar (.bool b) := ⟨rfl, rfl⟩

theorem isScalar_text (s : String) : IsScalar (.text s) := ⟨rfl, rfl⟩

theorem isScalar_valueOf (text : String) : IsScalar (Flags.valueOf text) := by
  unfold Flags.valueOf
  split <;> exact ⟨rfl, rfl⟩

/-- What is kept of the values of one option. -/
def collected : List Datum → Datum
  | [] => .absent
  | [v] => v
  | vs => .ofItems vs

def given (o : OptionUsage) (values : List (OptionUsage × Datum)) : List Datum :=
  (values.filter (·.1 = o)).map (·.2)

/-- The options that were given, in the order in which they were given first. -/
def givenOptions (values : List (OptionUsage × Datum)) : List OptionUsage :=
  (values.map Prod.fst).reverse.dedup.reverse

section Given

variable {values : List (OptionUsage × Datum)} {o : OptionUsage} {v : Datum}

theorem given_cons (o : OptionUsage) (v : OptionUsage × Datum) :
    given o (v :: values) = if v.1 = o then v.2 :: given o values else given o values := by
  unfold given
  rw [List.filter_cons]
  by_cases h : v.1 = o <;> simp [h]

theorem given_append_singleton (o : OptionUsage) (v : OptionUsage × Datum) :
    given o (values ++ [v]) = if v.1 = o then given o values ++ [v.2] else given o values := by
  unfold given
  rw [List.filter_append, List.map_append]
  by_cases h : v.1 = o <;> simp [h]

theorem nodup_givenOptions (values : List (OptionUsage × Datum)) :
    (givenOptions values).Nodup :=
  List.nodup_reverse.mpr (List.nodup_dedup _)

theorem mem_givenOptions : o ∈ givenOptions values ↔ ∃ v ∈ values, v.1 = o := by
  simp [givenOptions]

theorem givenOptions_append_singleton (v : OptionUsage × Datum) :
    givenOptions (values ++ [v]) = if v.1 ∈ givenOptions values then givenOptions values
      else givenOptions values ++ [v.1] := by
  unfold givenOptions
  rw [List.map_append, List.reverse_append]
  simp only [List.map_cons, List.map_nil, List.reverse_singleton, List.singleton_append,
    List.mem_reverse, List.mem_dedup]
  split
  next h => rw [List.dedup_cons_of_mem (List.mem_reverse.mpr h)]
  next h =>
    rw [List.dedup_cons_of_notMem fun hm => h (List.mem_reverse.mp hm), List.reverse_cons]

theorem given_eq_nil (h : o ∉ givenOptions values) : given o values = [] := by
  rw [mem_givenOptions] at h
  rw [given, List.map_eq_nil_iff, List.filter_eq_nil_iff]
  intro v hv he
  exact h ⟨v, hv, of_decide_eq_true he⟩

end Given

def entries (name : OptionUsage → String) (os : List OptionUsage)
    (value : OptionUsage → Datum) : Members Datum :=
  os.map fun o => (name o, value o)

section Entries

variable {name : OptionUsage → String} {os : List OptionUsage} {value : OptionUsage → Datum}
  {o : OptionUsage}
  (hname : ∀ a ∈ documented, ∀ b ∈ documented, name a = name b → a = b)
  (hos : ∀ o ∈ os, o ∈ documented) (ho : o ∈ documented)
include hname hos ho

theorem get?_entries : Members.get? (name o) (entries name os value) =
    if o ∈ os then some (value o) else none := by
  induction os with
  | nil => rfl
  | cons a os ih =>
    obtain ⟨ha, hos⟩ := List.forall_mem_cons.mp hos
    have hiff : name o = name a ↔ o = a := ⟨hname o ho a ha, fun h => h ▸ rfl⟩
    have ih := ih hos
    unfold Members.get? entries at ih ⊢
    rw [List.map_cons, Members.lookup_member]
    simp only [hiff, ih, List.mem_cons]
    by_cases h : o = a
    · simp [h]
    · simp [h]

theorem set_entries_of_mem (h : o ∈ os) (hnodup : os.Nodup) (v : Datum) :
    (entries name os value).set (name o) v = entries name os (Function.update value o v) := by
  induction os with
  | nil => cases h
  | cons a os ih =>
    obtain ⟨ha, hos⟩ := List.forall_mem_cons.mp hos
    obtain ⟨hnew, hnodup⟩ := List.nodup_cons.mp hnodup
    unfold entries at ih ⊢
    rw [List.map_cons, List.map_cons, Members.set]
    by_cases he : a = o
    · subst he
      have hsame : os.map (fun b => (name b, Function.update value a v b)) =
          os.map fun b => (name b, value b) := by
        refine List.map_congr_left fun b hb => ?_
        rw [Function.update_of_ne fun (he : b = a) => hnew (he ▸ hb)]
      rw [if_pos rfl, hsame, Function.update_self]
    · rw [if_neg fun hn => he (hname a ha o ho hn), Function.update_of_ne he,
        ih hos (List.mem_of_ne_of_mem (Ne.symm he) h) hnodup]

theorem set_entries_of_not_mem (h : o ∉ os) (v : Datum) :
    (entries name os value).set (name o) v = entries name os value ++ [(name o, v)] := by
  apply Members.set_of_not_mem
  intro m hm he
  obtain ⟨a, ha, rfl⟩ := List.mem_map.mp hm
  exact h (hname a (hos a ha) o ho he ▸ ha)

end Entries

theorem collected_append_singleton {vs : List Datum} (h : ∀ v ∈ vs, IsScalar v) (v : Datum) :
    collected (vs ++ [v]) = if (collected vs).isAbsent then v
      else if (collected vs).isList then .ofItems ((collected vs).items ++ [v])
      else .ofItems [collected vs, v] := by
  rcases vs with _ | ⟨a, _ | ⟨b, vs⟩⟩
  · rfl
  · have ha := h a List.mem_cons_self
    simp [collected, ha.isAbsent, ha.isList]
  · have hitems : (collected (a :: b :: vs)).items = a :: b :: vs := Datum.items_ofItems _
    rw [hitems]
    rfl

structure IsValue (v : OptionUsage × Datum) : Prop where
  documented : v.1 ∈ documented
  isScalar : IsScalar v.2

def AreValues (values : List (OptionUsage × Datum)) : Prop := ∀ v ∈ values, IsValue v

def kept (name : OptionUsage → String) (values : List (OptionUsage × Datum)) : Members Datum :=
  entries name (givenOptions values) fun o => collected (given o values)

section Kept

variable {values : List (OptionUsage × Datum)} {o : OptionUsage} {v : Datum}
  (hvalues : AreValues values)
include hvalues

theorem mem_documented_of_given : ∀ o ∈ givenOptions values, o ∈ documented := by
  intro o ho
  obtain ⟨v, hv, rfl⟩ := mem_givenOptions.mp ho
  exact (hvalues v hv).documented

theorem isScalar_of_given : ∀ v ∈ given o values, IsScalar v := by
  intro v hv
  obtain ⟨pair, hpair, rfl⟩ := List.mem_map.mp hv
  exact (hvalues pair (List.mem_filter.mp hpair).1).isScalar

variable {name : OptionUsage → String}
  (hname : ∀ a ∈ documented, ∀ b ∈ documented, name a = name b → a = b) (ho : o ∈ documented)
include hname ho

theorem get?_kept : (Members.get? (name o) (kept name values)).getD .absent =
    collected (given o values) := by
  rw [kept, get?_entries hname (mem_documented_of_given hvalues) ho]
  split
  next => rfl
  next h => rw [given_eq_nil h]; rfl

theorem kept_append_singleton (v : Datum) : kept name (values ++ [(o, v)]) =
    (kept name values).set (name o) (collected (given o values ++ [v])) := by
  have hdoc := mem_documented_of_given hvalues
  have hnodup := nodup_givenOptions values
  unfold kept
  rw [givenOptions_append_singleton]
  split
  next h =>
    rw [set_entries_of_mem hname hdoc ho h hnodup]
    congr 1
    funext a
    rw [given_append_singleton]
    by_cases ha : a = o
    · rw [ha, Function.update_self, if_pos rfl]
    · rw [Function.update_of_ne ha, if_neg fun h => ha h.symm]
  next h =>
    rw [set_entries_of_not_mem hname hdoc ho h, given_eq_nil h]
    unfold entries
    rw [List.map_append]
    congr 1
    · refine List.map_congr_left fun a ha => ?_
      simp only [given_append_singleton, if_neg fun (he : o = a) => h (he ▸ ha)]
    · simp [given_append_singleton, given_eq_nil h]

end Kept

end CommandLine

end AgentPrompts
