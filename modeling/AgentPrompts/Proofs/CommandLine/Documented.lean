import AgentPrompts.CommandLine.Run
import AgentPrompts.Proofs.CommandLine.Lookup

/-! # Options reach their commands

A command line may mention the options of a command in any order and as often as it likes,
with the word of the command anywhere among them. Then the command is called, and it gets
each path as it was typed last, also one that looks like a numeral, and each switch on if
it was mentioned.
-/

namespace AgentPrompts.CommandLine

open OptionUsage

/-- A command line in documented spelling: mentions of options before and after the word of
the command. -/
structure Line (c : Command) where
  before : List (Mention c)
  after : List (Mention c)

/-- The word of a command, which the unnamed one does without. -/
def Command.words (c : Command) : List String := if c = .unnamed then [] else [c.word]

namespace Line

variable {c : Command}

def mentions (l : Line c) : List (Mention c) := l.before ++ l.after

def args (l : Line c) : List String :=
  l.before.flatMap Mention.words ++ (c.words ++ l.after.flatMap Mention.words)

example : (Line.mk (c := .spawnPrompts)
    [.spaced .template "007" (by decide) rfl rfl, .switch .dryRun (by decide) rfl]
    [.joined .outDir "a=b" (by decide) rfl (by decide)]).args =
      ["--template", "007", "--dry-run", "spawn-prompts", "--out-dir=a=b"] := by
  decide

end Line

def Mentioned {c : Command} (o : OptionUsage) (ms : List (Mention c)) : Prop :=
  ∃ m ∈ ms, m.option = o

structure Generates (args : List String) (o : SpawnOptions) : Prop where
  read : ∃ i, Invocation.ofArgs args = .ok i ∧ i.spawnOptions args = .ok o
  run : ∀ platform h, run args platform h = .ofOutcome o.json.isOn (spawnPrompts o h)

structure ShowsPrompt (args : List String) (o : PromptOptions) : Prop where
  read : ∃ i, Invocation.ofArgs args = .ok i ∧ i.promptOptions args = .ok o
  run : ∀ platform h, run args platform h = .ofOutcome o.json.isOn (showPrompt o h)

section AsTyped

variable {c : Command}

/-- Options as mentions give them: each path is the text that it was given last, and each
switch is on if it was mentioned. -/
structure GeneratesAsTyped (ms : List (Mention c)) (o : SpawnOptions) : Prop where
  template : o.template = pathText (Mention.lastText? .template ms)
  outDir : o.outDir = pathText (Mention.lastText? .outDir ms)
  project : o.project = pathText (Mention.lastText? .project ms)
  dryRun : o.dryRun.isOn = true ↔ Mentioned .dryRun ms
  json : o.json.isOn = true ↔ Mentioned .json ms
  quiet : o.quiet.isOn = true ↔ Mentioned .quiet ms

structure ShowsAsTyped (ms : List (Mention c)) (o : PromptOptions) : Prop where
  template : o.template = pathText (Mention.lastText? .template ms)
  project : o.project = pathText (Mention.lastText? .project ms)
  json : o.json.isOn = true ↔ Mentioned .json ms
  quiet : o.quiet.isOn = true ↔ Mentioned .quiet ms

end AsTyped

theorem Mention.switch_of_prompt (m : Mention .prompt) (h : m.text? = none) :
    m.option ∈ [json, quiet] := by
  have htakes := m.takesValue_eq
  rw [h] at htakes
  have hswitch : ∀ o ∈ Command.prompt.options, o.takesValue = false → o ∈ [json, quiet] := by
    decide
  exact hswitch _ m.known htakes

/-- A reading of the mentions of a command line: the command that is chosen holds their values
and no words. -/
structure Reads {c : Command} (l : Line c) (chosen : Command)
    (values : List (OptionUsage × Datum)) : Prop where
  adds : ∃ word, word ≠ "" ∧ List.Forall₂ (Mention.Adds word) l.mentions values
  ofArgs : Invocation.ofArgs l.args = .ok (.holding chosen values)
  options : chosen.options = c.options
  prompt : chosen = .prompt ↔ c = .prompt

namespace Line

variable {c : Command}

theorem dashes_not_mem_args (l : Line c) : "--" ∉ l.args := by
  have hword : "--" ∉ c.words := by cases c <;> decide
  rw [args, List.mem_append, List.mem_append]
  rintro (h | h | h)
  · exact Mention.dashes_not_mem_flatMap _ h
  · exact hword h
  · exact Mention.dashes_not_mem_flatMap _ h

theorem lastFlagText_args (l : Line c) {o : OptionUsage} (ho : o ∈ documented)
    (hvalue : o.takesValue = true) :
    lastFlagText o.flag l.args = Mention.lastText? o l.mentions := by
  have hafter : lastFlagText o.flag (l.after.flatMap Mention.words ++ []) =
      (lastFlagText o.flag []).or (Mention.lastText? o l.after) :=
    Mention.lastFlagText_flatMap l.after ho hvalue
  rw [List.append_nil, lastFlagText, Option.none_or] at hafter
  have hwords : lastFlagText o.flag (c.words ++ l.after.flatMap Mention.words) =
      Mention.lastText? o l.after := by
    rw [← hafter]
    cases c with
    | unnamed => rfl
    | spawnPrompts => exact lastFlagText_word (by decide)
    | prompt => exact lastFlagText_word (by decide)
  rw [args, Mention.lastFlagText_flatMap l.before ho hvalue, hwords, mentions,
    Mention.lastText?_append]

theorem reads_unnamed (l : Line .unnamed) :
    Reads l .unnamed (l.mentions.map Mention.value) := by
  have hargs : l.args = l.mentions.flatMap Mention.words := by
    rw [mentions, List.flatMap_append]
    rfl
  have hvalues : AreValues (l.mentions.map Mention.value) :=
    List.forall_mem_map.mpr fun m _ => m.isValue_value
  refine ⟨⟨"-", by decide, Mention.forall₂_adds_value _ _⟩, ofArgs_of_noWord fun c' => ?_, rfl,
    Iff.rfl⟩
  apply ofArgs_of_foldlM hvalues l.dashes_not_mem_args
  rw [hargs, Mention.items_mentions]
  exact Mention.foldlM_items_empty l.mentions c'

/-- Where the word is lost to a switch, the unnamed command does what the word stands for. -/
theorem reads_named (hc : c ≠ .unnamed) (l : Line c) : ∃ chosen values, Reads l chosen values := by
  have hplain := isPlainWord_word hc
  have hwords : c.words = [c.word] := if_neg hc
  have hargs : l.args =
      l.before.flatMap Mention.words ++ c.word :: l.after.flatMap Mention.words := by
    rw [args, hwords]
    rfl
  obtain ⟨words, values, hadds, hleft, hread⟩ := Mention.foldlM_between l.before l.after hplain
  have hvalues := Mention.areValues_of_adds hadds
  have hreads : ReadsAs l.args words (optionsWith values) := fun c' =>
    ofArgs_of_foldlM hvalues l.dashes_not_mem_args (hargs ▸ hread c')
  have hadds : ∃ word, word ≠ "" ∧ List.Forall₂ (Mention.Adds word) l.mentions values :=
    ⟨c.word, hplain.notEmpty, hadds⟩
  rcases hleft with rfl | ⟨rfl, m, hswitch, hother⟩
  · exact ⟨c, values, hadds, ofArgs_of_word hc hreads, rfl, Iff.rfl⟩
  · cases c with
    | unnamed => exact absurd rfl hc
    | spawnPrompts => exact ⟨.unnamed, values, hadds, ofArgs_of_noWord hreads, rfl, by decide⟩
    | prompt => exact absurd (m.switch_of_prompt hswitch) hother

theorem reads (l : Line c) : ∃ chosen values, Reads l chosen values := by
  by_cases hc : c = .unnamed
  · subst hc
    exact ⟨_, _, l.reads_unnamed⟩
  · exact l.reads_named hc

end Line

namespace Reads

variable {c chosen : Command} {l : Line c} {values : List (OptionUsage × Datum)}
  (h : Reads l chosen values)
include h

theorem areValues : AreValues values := by
  obtain ⟨word, -, hadds⟩ := h.adds
  exact Mention.areValues_of_adds hadds

theorem usageError?_eq_none : (Invocation.holding chosen values).usageError? = none := by
  obtain ⟨word, -, hadds⟩ := h.adds
  apply Invocation.usageError?_holding h.areValues
  · intro v hv
    obtain ⟨m, hm⟩ := Mention.exists_adds hadds v hv
    rw [h.options, hm.fst]
    exact m.known
  · intro o _ htakes v hv b
    rw [Mention.given_of_takesValue hadds htakes] at hv
    obtain ⟨text, -, rfl⟩ := List.mem_map.mp hv
    exact valueOf_ne_bool text b

theorem run_eq (platform : String) (host : Host) :
    run l.args platform host = act (.holding chosen values) l.args host := by
  have hglobal (name : String) (hname : name ∈ ["help", "version"]) :
      (Invocation.holding chosen values).isOn name = false := by
    rw [Invocation.isOn, Invocation.option_global h.areValues hname]
    rfl
  rw [run, h.ofArgs]
  simp [hglobal, h.usageError?_eq_none]

theorem pathOption_eq (o : OptionUsage) (name flag : String) (hkey : o.key = name)
    (hflag : o.flag = flag) (ho : o ∈ documented) (htakes : o.takesValue = true) :
    pathOption ((Invocation.holding chosen values).value name) l.args flag =
      .ok (pathText (Mention.lastText? o l.mentions)) := by
  obtain ⟨word, -, hadds⟩ := h.adds
  subst hkey hflag
  rw [Invocation.value, Invocation.option_key h.areValues ho,
    Mention.given_of_takesValue hadds htakes]
  exact pathOption_collected (l.lastFlagText_args ho htakes)

theorem isOn_value_iff {o : OptionUsage} {name : String} (hkey : o.key = name)
    (ho : o ∈ documented) (hswitch : o.takesValue = false) :
    ((Invocation.holding chosen values).value name).isOn = true ↔ Mentioned o l.mentions := by
  obtain ⟨word, hword, hadds⟩ := h.adds
  subst hkey
  rw [← Invocation.isOn_eq, Invocation.isOn, Invocation.option_key h.areValues ho,
    isOn_collected_iff (Mention.isOn_given hadds hword hswitch)]
  exact Mention.given_ne_nil_iff hadds

theorem spawnOptions_eq_ok : ∃ o, (Invocation.holding chosen values).spawnOptions l.args = .ok o ∧
    o.json = (Invocation.holding chosen values).value "json" ∧ GeneratesAsTyped l.mentions o := by
  rw [Invocation.spawnOptions,
    h.pathOption_eq template "template" "--template" rfl (by decide) (by decide) rfl,
    h.pathOption_eq outDir "outDir" "--out-dir" rfl (by decide) (by decide) rfl,
    h.pathOption_eq project "project" "--project" rfl (by decide) (by decide) rfl]
  refine ⟨_, rfl, rfl, rfl, rfl, rfl, ?_, ?_, ?_⟩
  · exact h.isOn_value_iff rfl (by decide) rfl
  · exact h.isOn_value_iff rfl (by decide) rfl
  · exact h.isOn_value_iff rfl (by decide) rfl

theorem promptOptions_eq_ok :
    ∃ o, (Invocation.holding chosen values).promptOptions l.args = .ok o ∧
      o.json = (Invocation.holding chosen values).value "json" ∧ ShowsAsTyped l.mentions o := by
  rw [Invocation.promptOptions,
    h.pathOption_eq template "template" "--template" rfl (by decide) (by decide) rfl,
    h.pathOption_eq project "project" "--project" rfl (by decide) (by decide) rfl]
  refine ⟨_, rfl, rfl, rfl, rfl, ?_, ?_⟩
  · exact h.isOn_value_iff rfl (by decide) rfl
  · exact h.isOn_value_iff rfl (by decide) rfl

theorem generates (hc : c ≠ .prompt) :
    ∃ o, Generates l.args o ∧ GeneratesAsTyped l.mentions o := by
  obtain ⟨o, ho, hjson, htyped⟩ := h.spawnOptions_eq_ok
  refine ⟨o, ⟨⟨_, h.ofArgs, ho⟩, fun platform host => ?_⟩, htyped⟩
  rw [h.run_eq, act, Invocation.isOn_eq, ← hjson, ho]
  cases chosen with
  | spawnPrompts => rfl
  | unnamed => rfl
  | prompt => exact absurd (h.prompt.mp rfl) hc

theorem showsPrompt (hc : c = .prompt) :
    ∃ o, ShowsPrompt l.args o ∧ ShowsAsTyped l.mentions o := by
  obtain ⟨o, ho, hjson, htyped⟩ := h.promptOptions_eq_ok
  refine ⟨o, ⟨⟨_, h.ofArgs, ho⟩, fun platform host => ?_⟩, htyped⟩
  rw [h.run_eq, act, Invocation.isOn_eq, ← hjson, ho]
  obtain rfl := h.prompt.mpr hc
  rfl

end Reads

/-- Options in documented spelling reach their commands as they were typed. -/
theorem options_reach_commands :
    (∀ l : Line .spawnPrompts, ∃ o, Generates l.args o ∧ GeneratesAsTyped l.mentions o) ∧
    (∀ l : Line .unnamed, ∃ o, Generates l.args o ∧ GeneratesAsTyped l.mentions o) ∧
    ∀ l : Line .prompt, ∃ o, ShowsPrompt l.args o ∧ ShowsAsTyped l.mentions o := by
  refine ⟨fun l => ?_, fun l => ?_, fun l => ?_⟩ <;> obtain ⟨chosen, values, h⟩ := l.reads
  · exact h.generates (by decide)
  · exact h.generates (by decide)
  · exact h.showsPrompt rfl

end AgentPrompts.CommandLine
