import Mathlib.Data.List.Forall2
import Mathlib.Data.List.Nodup
import AgentPrompts.Proofs.CommandLine.Collected
import AgentPrompts.Proofs.Step

/-! # Mentions read

Mentions are read in the same way whatever command the words are read for: each adds one
value to its option, and a plain word among them either stays among the words or becomes the
value of the switch before it. The values then stand under the names of the options.
-/

namespace AgentPrompts.CommandLine

open OptionUsage

def flagsOf (words : List Datum) (values : List (OptionUsage × Datum)) : Flags :=
  ⟨(Flags.wordsName, .ofItems words) :: kept flagName values, Datum.emptyRecord.parent⟩

/-- Options with values, as they are kept under their names. -/
def optionsWith (values : List (OptionUsage × Datum)) : Datum :=
  .made none (("--", .ofItems []) :: kept key values) Datum.emptyRecord.parent

theorem flagName_mem_switches_iff : ∀ o ∈ documented, ∀ c : Command,
    o.flagName ∈ c.switches ↔ o ∈ [json, quiet] := by
  intro o ho c
  revert o
  cases c <;> decide

/-- A name under which an option is kept, apart from anything else that is kept or inherited
with it. -/
structure IsKey (key : String) : Prop where
  parts : nameParts key = [key]
  not_parent : key ≠ Datum.parentName
  not_words : key ≠ Flags.wordsName
  not_dashes : key ≠ "--"
  not_index : Members.index? key = none
  not_inherited : Datum.sharedMember? [] key (.prototype .object) = none

theorem isKey_key : ∀ o ∈ documented, IsKey o.key := by
  intro o ho
  constructor <;> revert o <;> decide

section Flags

variable {words : List Datum} {values : List (OptionUsage × Datum)} {o : OptionUsage}
  {switches : List String}

theorem addWord_flagsOf (v : Datum) :
    (flagsOf words values).addWord v = .ok (flagsOf (words ++ [v]) values) := by
  have hwords : (flagsOf words values).words = .ofItems words := rfl
  have hlist : (Datum.ofItems words).isList = true := rfl
  rw [Flags.addWord, hwords, if_pos hlist, Datum.push_ofItems]
  rfl

section Kept

variable (hvalues : AreValues values) (ho : o ∈ documented)
include hvalues ho

theorem get_flagsOf : (flagsOf words values).get [] o.flagName = collected (given o values) := by
  have hfree := isFree_flagName o ho
  have hkept := get?_kept hvalues flagName_inj ho
  rw [Flags.get, Flags.record, Datum.get, if_neg hfree.not_parent, ← hkept]
  simp [flagsOf, Datum.member?, Datum.emptyRecord, Datum.parent, hfree.not_inherited,
    Members.get?, Members.lookup_member, hfree.not_words]

theorem add_flagsOf (v : Datum) : (flagsOf words values).add [] o.flagName v =
    flagsOf words (values ++ [(o, v)]) := by
  have hfree := isFree_flagName o ho
  rw [Flags.add, get_flagsOf hvalues ho,
    ← collected_append_singleton (isScalar_of_given hvalues) v, Flags.replace,
    if_neg hfree.not_parent, flagsOf, flagsOf, kept_append_singleton hvalues flagName_inj ho]
  simp only [Members.set, if_neg hfree.not_words.symm]

end Kept

end Flags

namespace Mention

variable {c : Command} {words : List Datum} {values : List (OptionUsage × Datum)}

def value (m : Mention c) : OptionUsage × Datum :=
  (m.option, match m.text? with
    | some text => Flags.valueOf text
    | none => .bool true)

theorem documented (m : Mention c) : m.option ∈ documented := mem_documented m.known

theorem isValue_value (m : Mention c) : IsValue m.value := by
  refine ⟨m.documented, ?_⟩
  unfold value
  cases m.text? with
  | some text => exact isScalar_valueOf text
  | none => exact isScalar_bool true

theorem takesValue_eq (m : Mention c) : m.option.takesValue = m.text?.isSome := by
  cases m <;> assumption

theorem name_not_mem_switches {m : Mention c} {text : String} (h : m.text? = some text)
    (c' : Command) : m.name ∉ c'.switches := by
  have htakes := m.takesValue_eq
  rw [h] at htakes
  rw [name, flagName_mem_switches_iff _ m.documented]
  intro hm
  have hno : ∀ o ∈ [json, quiet], o.takesValue = false := by decide
  rw [hno _ hm] at htakes
  cases htakes

theorem addItem_item (hvalues : AreValues values)
    (m : Mention c) (c' : Command) : (flagsOf words values).addItem (.ofSwitches c'.switches) [] m.item =
      .ok (flagsOf words (values ++ [m.value])) := by
  have hadd (v : Datum) : (flagsOf words values).add [] m.name v =
      flagsOf words (values ++ [(m.option, v)]) := add_flagsOf hvalues m.documented v
  unfold item value
  cases h : m.text? with
  | some text =>
    simp only [Flags.addItem_value, if_neg (name_not_mem_switches h c')]
    exact congrArg Except.ok (hadd _)
  | none => exact (Flags.addItem_on _ _).trans (congrArg Except.ok (hadd _))

theorem foldlM_items (hvalues : AreValues values)
    (ms : List (Mention c)) (c' : Command) :
    (ms.map item).foldlM (Flags.addItem (.ofSwitches c'.switches) []) (flagsOf words values) =
      .ok (flagsOf words (values ++ ms.map value)) := by
  induction ms generalizing values with
  | nil => rw [List.map_nil, List.map_nil, List.append_nil]; rfl
  | cons m ms ih =>
    have hnext : AreValues (values ++ [m.value]) :=
      List.forall_mem_append.mpr ⟨hvalues, List.forall_mem_singleton.mpr m.isValue_value⟩
    rw [List.map_cons, foldlM_cons_ok (addItem_item hvalues m c'), ih hnext, List.map_cons,
      List.append_assoc, List.singleton_append]

/-- A value that comes from a mention: its own, or the plain word behind a switch. -/
def Adds (word : String) (m : Mention c) (v : OptionUsage × Datum) : Prop :=
  v = m.value ∨ m.text? = none ∧ v = (m.option, .text word)

theorem forall₂_adds_value (word : String) (ms : List (Mention c)) :
    List.Forall₂ (Adds word) ms (ms.map value) :=
  List.forall₂_map_right_iff.mpr (List.forall₂_same.mpr fun _ _ => Or.inl rfl)

end Mention

/-- A word that is read as itself: it is no numeral, and it switches nothing on or off. -/
structure IsPlainWord (word : String) : Prop where
  noDash : startsWithDash word = false
  valueOf : Flags.valueOf word = .text word
  notEmpty : word ≠ ""
  notTrue : word ≠ "true"
  notFalse : word ≠ "false"

theorem isPlainWord_word {c : Command} (h : c ≠ .unnamed) : IsPlainWord c.word := by
  cases c with
  | unnamed => exact absurd rfl h
  | spawnPrompts => exact ⟨by decide, rfl, by decide, by decide, by decide⟩
  | prompt => exact ⟨by decide, rfl, by decide, by decide, by decide⟩

namespace Mention

variable {c : Command} {words : List Datum} {values : List (OptionUsage × Datum)} {word : String}

theorem Adds.isValue {m : Mention c} {v : OptionUsage × Datum} (h : m.Adds word v) :
    IsValue v := by
  rcases h with rfl | ⟨-, rfl⟩
  · exact m.isValue_value
  · exact ⟨m.documented, isScalar_text word⟩

theorem addItem_switch (hvalues : AreValues values)
    (m : Mention c) (h : m.text? = none) (hword : IsPlainWord word) :
    ∃ words v, m.Adds word v ∧
      (words = [.text word] ∨ words = [] ∧ m.option ∉ [json, quiet]) ∧
      ∀ c' : Command, (flagsOf [] values).addItem (.ofSwitches c'.switches) [] (.value m.name word) =
        .ok (flagsOf words (values ++ [v])) := by
  have hmem := flagName_mem_switches_iff _ m.documented
  by_cases hm : m.option ∈ [json, quiet]
  · refine ⟨[.text word], m.value, Or.inl rfl, Or.inl rfl, fun c' => ?_⟩
    simp only [Flags.addItem_value, name, if_pos ((hmem c').mpr hm), if_neg hword.notFalse,
      if_neg hword.notTrue, hword.valueOf, addWord_flagsOf]
    simp only [value, h, ne_eq, hword.notEmpty, not_false_eq_true, decide_true]
    exact congrArg Except.ok (add_flagsOf hvalues m.documented _)
  · refine ⟨[], (m.option, .text word), Or.inr ⟨h, rfl⟩, Or.inr ⟨rfl, hm⟩, fun c' => ?_⟩
    simp only [Flags.addItem_value, name, if_neg ((hmem c').not.mpr hm), hword.valueOf]
    exact congrArg Except.ok (add_flagsOf hvalues m.documented _)

theorem foldlM_items_empty (ms : List (Mention c)) (c' : Command) :
    (ms.map item).foldlM (Flags.addItem (.ofSwitches c'.switches) []) Flags.empty =
      .ok (flagsOf [] (ms.map value)) := by
  have hnone : AreValues [] := fun v hv => by cases hv
  have h : (ms.map item).foldlM (Flags.addItem (.ofSwitches c'.switches) []) (flagsOf [] []) =
      .ok (flagsOf [] ([] ++ ms.map value)) := foldlM_items hnone ms c'
  exact h

/-- What mentions with a plain word among them are read into: the word stays a word, unless
the switch before it keeps it. -/
theorem foldlM_between (before after : List (Mention c)) (hword : IsPlainWord word) :
    ∃ words values, List.Forall₂ (Adds word) (before ++ after) values ∧
      (words = [.text word] ∨ words = [] ∧ ∃ m : Mention c, m.text? = none ∧
        m.option ∉ [json, quiet]) ∧
      ∀ c' : Command, (items (before.flatMap Mention.words ++ word ::
          after.flatMap Mention.words)).foldlM (Flags.addItem (.ofSwitches c'.switches) []) Flags.empty =
        .ok (flagsOf words values) := by
  have hadds := forall₂_adds_value (c := c) word
  have hvalues (ms : List (Mention c)) : AreValues (ms.map value) :=
    List.forall_mem_map.mpr fun m _ => m.isValue_value
  rcases items_between before after hword.noDash with hitems | ⟨others, m, rfl, hswitch, hitems⟩
  · refine ⟨[.text word], before.map value ++ after.map value, ?_, Or.inl rfl, fun c' => ?_⟩
    · exact List.rel_append (hadds before) (hadds after)
    · rw [hitems, foldlM_append_ok (foldlM_items_empty before c'),
        foldlM_cons_ok (addWord_flagsOf _)]
      exact foldlM_items (hvalues before) after c'
  · obtain ⟨words, v, hv, hwords, hstep⟩ := addItem_switch (hvalues others) m hswitch hword
    refine ⟨words, others.map value ++ [v] ++ after.map value, ?_, ?_, fun c' => ?_⟩
    · exact List.rel_append (List.rel_append (hadds others) (.cons hv .nil)) (hadds after)
    · exact hwords.imp_right fun h => ⟨h.1, m, hswitch, h.2⟩
    · have hothers : AreValues (others.map value ++ [v]) :=
        List.forall_mem_append.mpr ⟨hvalues others, List.forall_mem_singleton.mpr hv.isValue⟩
      rw [hitems, foldlM_append_ok (foldlM_items_empty others c'), foldlM_cons_ok (hstep c')]
      exact foldlM_items hothers after c'

end Mention

end AgentPrompts.CommandLine
