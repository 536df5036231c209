import AgentPrompts.Proofs.CommandLine.Effects
import AgentPrompts.Proofs.CommandLine.Held
import AgentPrompts.Proofs.CommandLine.Undotted

/-! # Words that name no command

A command line whose first plain word names no command is refused, if it adds nothing to the
shared objects: they could allow unknown options. The command for prompts has a
switch less than the others, so it may find another first word: then the value of that switch
stands among its options, where it is not known. Only the empty word, which names the unnamed
command, is passed over.
-/

namespace AgentPrompts

namespace Datum

def Names (name : String) (d : Datum) : Prop :=
  ∃ ms p, d = made none ms p ∧ name ∈ ms.map Prod.fst

section Names

variable {v d d' : Datum} {additions additions' : Additions} {name other : String}
  {ms : Members Datum} {p : Datum}

theorem Names.set (h : Names name d) (hset : Datum.set other v additions d = .ok (d', additions')) :
    Names name d' := by
  obtain ⟨ms, p, rfl, hname⟩ := h
  rcases set_record hset with ⟨-, rfl⟩ | ⟨-, p', rfl⟩
  · exact ⟨_, p, rfl, Members.mem_map_fst_set.mpr (Or.inr hname)⟩
  · exact ⟨ms, p', rfl, hname⟩

theorem names_of_set (hname : name ≠ parentName)
    (hset : Datum.set name v additions (made none ms p) = .ok (d', additions')) : Names name d' := by
  rcases set_record hset with ⟨-, rfl⟩ | ⟨hparent, -⟩
  · exact ⟨_, p, rfl, Members.mem_map_fst_set.mpr (Or.inl rfl)⟩
  · exact absurd hparent hname

theorem Names.assign {names : List String} (h : Names name d)
    (hassign : Datum.assign v names additions d = .ok (d', additions')) : Names name d' := by
  cases names with
  | nil => exact (Prod.mk.inj (Except.ok.inj hassign)).1 ▸ h
  | cons other names =>
    cases names with
    | nil => exact h.set (set_of_assign hassign)
    | cons next names =>
      obtain ⟨d₁, _, changed, _, hset, -, hback | rfl⟩ := assign_cases hassign
      · exact (h.set hset).set hback
      · exact h.set hset

end Names

end Datum

namespace CommandLine

open Flags

section Names

variable {name : String} {flags : Flags} {switches : List String} {additions : Additions}

/-- Options in the middle of a run: the name is there, or its assignment is still to come. -/
def NamedSoFar (name : String) (rest : Members Datum) (options : Datum) : Prop :=
  options.Names name ∨ (∃ m ∈ rest, m.1 = name) ∧ ∃ ms p, options = .made none ms p

theorem NamedSoFar.assign {m : String × Datum} {rest : Members Datum} {options options' : Datum}
    {additions' : Additions} (h : NamedSoFar name (m :: rest) options) (hkey : IsKey name)
    (hassign : Datum.assign m.2 (nameParts m.1) additions options = .ok (options', additions')) :
    NamedSoFar name rest options' := by
  rcases h with h | ⟨⟨m', hm', hname⟩, ms, p, rfl⟩
  · exact Or.inl (h.assign hassign)
  · rcases List.mem_cons.mp hm' with rfl | hm'
    · rw [hname, hkey.parts] at hassign
      exact Or.inl (Datum.names_of_set hkey.not_parent (Datum.set_of_assign hassign))
    · exact Or.inr ⟨⟨m', hm', hname⟩, Datum.exists_record_of_assign hassign⟩

theorem names_of_optionsOf {rest : List String} {options : Datum} {additions' : Additions}
    (hkey : IsKey name) (hoption : optionName name = name) (h : name ∈ flags.members.map Prod.fst)
    (hoptions : optionsOf (noOptions rest) flags additions = .ok (options, additions')) :
    options.Names name := by
  obtain ⟨m, hm, hname⟩ := List.mem_map.mp h
  obtain ⟨m', hm', hname'⟩ := Members.exists_mem_ofList
    (List.mem_map_of_mem (f := fun m => (optionName m.1, m.2)) (Members.mem_listed.mpr hm))
  have hstep : ∀ (m : String × Datum) (assignments : Members Datum)
      (state state' : Datum × Additions), NamedSoFar name (m :: assignments) state.1 →
      (if m.1 = wordsName then pure state
        else Datum.assign m.2 (nameParts m.1) state.2 state.1) = .ok state' →
      NamedSoFar name assignments state'.1 := by
    intro m assignments state state' hstate hassign
    split at hassign
    next hwords =>
      obtain rfl := Except.ok.inj hassign
      refine hstate.imp_right ?_
      rintro ⟨⟨m₁, hm₁, hname₁⟩, hrecord⟩
      rcases List.mem_cons.mp hm₁ with rfl | hm₁
      · exact absurd (hname₁.symm.trans hwords) hkey.not_words
      · exact ⟨⟨m₁, hm₁, hname₁⟩, hrecord⟩
    next => exact hstate.assign hkey hassign
  have hnamed := foldlM_keeps (fun assignments state => NamedSoFar name assignments state.1) hstep
    (Or.inr ⟨⟨m', hm', by rw [hname', hname, hoption]⟩, _, _, rfl⟩) hoptions
  rcases hnamed with hnamed | ⟨⟨m, hm, -⟩, -⟩
  · exact hnamed
  · cases hm

theorem names_of_readOptions {args : List String} {r : Datum × Additions} (hkey : IsKey name)
    (hoption : optionName name = name) (hr : readOptions switches args = .ok r)
    (h : ∃ item ∈ items (args.takeWhile (· ≠ "--")), item.name? = some name) :
    r.1.Names name := by
  refine names_of_optionsOf hkey hoption (mem_names_addAliases ?_) (optionsOf_of_readOptions hr)
  exact (mem_names_foldl_iff _).mpr (Or.inr ⟨h, hkey.not_words, hkey.not_parent⟩)

end Names

section Switches

variable {args : List String} {ws ws' : Option (List Datum)}

theorem mem_switches_prompt {name : String} (h : name ≠ "dryRun") :
    name ∈ Command.prompt.switches ↔ name ∈ Command.unnamed.switches := by
  have hprompt : Command.prompt.switches = ["h", "help", "v", "version", "json", "quiet"] := by
    decide
  have hunnamed : Command.unnamed.switches =
      ["h", "help", "v", "version", "dryRun", "json", "quiet"] := by decide
  simp [hprompt, hunnamed, h]

theorem wordSteps_prompt {item : Item} (h : ∀ text, item ≠ .value "dryRun" text) :
    item.wordSteps Command.prompt.switches = item.wordSteps Command.unnamed.switches := by
  cases item with
  | value name text =>
    have hname : name ≠ "dryRun" := fun he => h text (he ▸ rfl)
    simp only [Item.wordSteps, mem_switches_prompt hname]
  | _ => rfl

/-- Where the commands find different words, the switch in which they differ is used. -/
theorem exists_item_of_readWords_ne (hws : readWords Command.unnamed.switches args = .ok ws)
    (hws' : readWords Command.prompt.switches args = .ok ws') (hne : ws ≠ ws') :
    ∃ item ∈ items (args.takeWhile (· ≠ "--")), item.name? = some "dryRun" := by
  by_contra hnone
  have hsteps : ∀ item ∈ items (args.takeWhile (· ≠ "--")),
      item.wordSteps Command.prompt.switches = item.wordSteps Command.unnamed.switches := by
    exact fun item hitem => wordSteps_prompt fun text he => hnone ⟨item, hitem, he ▸ rfl⟩
  rw [readWords, List.flatMap_congr hsteps, ← readWords, hws] at hws'
  exact hne (Except.ok.inj hws')

end Switches

namespace Invocation

variable {args : List String} {i : Invocation}

theorem exists_read (hadds : AddsNothing args) (h : ofArgs args = .ok i) : ∃ ws r,
    readWords i.command.switches args = .ok ws ∧
    readOptions i.command.switches args = .ok r ∧ i.TakenFrom ⟨wordsOf ws, r.1, r.2⟩ := by
  obtain ⟨p, hp, htaken⟩ := hadds.exists_parsed h
  obtain ⟨ws, r, hws, hr, rfl⟩ := Parsed.exists_of_ofArgs hp
  exact ⟨ws, r, hws, hr, htaken⟩

theorem switchedOff_of_eval (args : List String) (h : (ofArgs args).toOption.map
    (fun i => (i.isOn "help", i.isOn "version")) = some (false, false)) :
    ∀ i, ofArgs args = .ok i → i.isOn "help" = false ∧ i.isOn "version" = false :=
  fun i hi => Prod.mk.inj (forall_of_toOption_map h i hi)

theorem usageError?_of_names {name : String} (hadditions : i.additions = [])
    (hnames : i.options.Names name) (hdashes : name ≠ "--")
    (hname : name ∉ i.command.allOptions.flatMap (·.names)) : ∃ e, i.usageError? = some e := by
  have hallow : Additions.isOn [] "allowUnknownOptions" = false := isOn_nil _ (by decide)
  obtain ⟨ms, p, hoptions, hmem⟩ := hnames
  have hlisted : name ∈ i.optionNames := by
    obtain ⟨m, hm, rfl⟩ := List.mem_map.mp hmem
    simp only [optionNames, hoptions]
    exact List.mem_map_of_mem (Members.mem_listed.mpr hm)
  have hfound : (i.optionNames.find? fun name =>
      name ≠ "--" && !(i.command.allOptions.flatMap (·.names)).contains name).isSome = true := by
    rw [List.find?_isSome]
    refine ⟨name, hlisted, ?_⟩
    have hunknown : (i.command.allOptions.flatMap (·.names)).contains name = false := by
      rw [← Bool.not_eq_true, List.contains_iff_mem]
      exact hname
    simp only [hunknown, hdashes, ne_eq, not_false_eq_true, decide_true, Bool.not_false,
      Bool.and_self]
  obtain ⟨other, hother⟩ := Option.isSome_iff_exists.mp hfound
  refine ⟨.unknownOption other, ?_⟩
  simp only [usageError?, hadditions, hallow, Bool.not_false, Bool.true_and, hother]

end Invocation

/-- A run that is refused: it fails, prints nothing on standard output and changes nothing. -/
structure Refused (h : Host) (x : Exit) : Prop where
  status : x.status = ExitStatus.general
  stdout : x.console.stdout = ""
  disk : x.disk = h.disk

section Runs

variable {args : List String} {i : Invocation} {h : Host}

theorem refused_usage (json : Bool) (e : UsageError) :
    Refused h (.fail json {} h.disk (.usage e)) :=
  ⟨rfl, rfl, rfl⟩

theorem refused_unknownCommand (json : Bool) (word : Datum) (additions : Additions) :
    Refused h (.fail json {} h.disk (unknownCommand word additions)) := by
  refine ⟨?_, rfl, rfl⟩
  rw [unknownCommand]
  cases word.asText additions <;> rfl

theorem refused_act {v : Datum} {vs : List Datum} (hcommand : i.command = .unnamed)
    (hwords : i.words = .ofItems (v :: vs)) : Refused h (act i args h) := by
  have hlist : i.words.isList = true := by rw [hwords]; rfl
  have hitems : i.words.items = v :: vs := by rw [hwords, Datum.items_ofItems]
  simp only [act, hcommand, hlist, hitems, not_true, if_false]
  exact refused_unknownCommand _ v _

end Runs

theorem readWords_of_items {c : Command} {args : List String} {p : Parsed} {word : Datum}
    {rest : List Datum} (hp : Parsed.ofArgs c args [] = .ok p)
    (hwords : p.words.items = word :: rest) :
    readWords c.switches args = .ok (some (word :: rest)) := by
  obtain ⟨ws, _, hws, -, rfl⟩ := Parsed.exists_of_ofArgs hp
  cases ws with
  | none => cases hwords
  | some ws =>
    rw [hws, ← hwords]
    exact congrArg (Except.ok ∘ some) (Datum.items_ofItems ws).symm

/-- An invocation whose words begin with one that names no command is refused before it acts, or
it is unnamed and has words left. -/
theorem usageError?_or_words {args : List String} {i : Invocation} {word : Datum}
    {rest : List Datum} (hadds : AddsNothing args) (hi : Invocation.ofArgs args = .ok i)
    (hws : readWords Command.unnamed.switches args = .ok (some (word :: rest)))
    (hspawn : word ≠ .text Command.spawnPrompts.word) (hprompt : word ≠ .text Command.prompt.word)
    (hempty : word = .text Command.unnamed.word → rest ≠ []) :
    (∃ e, i.usageError? = some e) ∨
      i.command = .unnamed ∧ ∃ v vs, i.words = .ofItems (v :: vs) := by
  obtain ⟨ws, r, hws', hr, hoptions, hadditions, hwords⟩ := Invocation.exists_read hadds hi
  cases hcommand : i.command with
  | spawnPrompts =>
    rw [hcommand] at hws' hwords
    rcases hwords with ⟨hword, -⟩ | ⟨hunnamed, -⟩
    · obtain rfl := Except.ok.inj (hws.symm.trans hws')
      rw [firstWord_wordsOf, isText_iff] at hword
      exact absurd hword hspawn
    · cases hunnamed
  | prompt =>
    rw [hcommand] at hws' hwords hr
    rcases hwords with ⟨hword, -⟩ | ⟨hunnamed, -⟩
    · have hne : some (word :: rest) ≠ ws := by
        rintro rfl
        rw [firstWord_wordsOf, isText_iff] at hword
        exact hprompt hword
      have hkey : IsKey "dryRun" := by constructor <;> decide
      have hnames := names_of_readOptions hkey (by decide) hr
        (exists_item_of_readWords_ne hws hws' hne)
      rw [show r.1 = i.options from hoptions.symm] at hnames
      refine Or.inl (Invocation.usageError?_of_names hadditions hnames (by decide) ?_)
      rw [hcommand]
      decide
    · cases hunnamed
  | unnamed =>
    rw [hcommand] at hws' hwords
    obtain rfl := Except.ok.inj (hws.symm.trans hws')
    refine Or.inr ⟨rfl, ?_⟩
    rcases hwords with ⟨hword, hwords⟩ | ⟨-, hwords⟩
    · rw [firstWord_wordsOf, isText_iff] at hword
      obtain ⟨v, vs, rfl⟩ := List.exists_cons_of_ne_nil (hempty hword)
      exact ⟨v, vs, hwords.trans (afterFirst_wordsOf _)⟩
    · exact ⟨word, rest, hwords⟩

/-- A first plain word that names no command is refused, also the empty word if another follows. -/
theorem refused_of_word {args : List String} {p : Parsed} {word : Datum} {rest : List Datum}
    (hp : Parsed.ofArgs .unnamed args [] = .ok p)
    (hwords : p.words.items = word :: rest) (hadds : AddsNothing args)
    (hspawn : word ≠ .text Command.spawnPrompts.word)
    (hprompt : word ≠ .text Command.prompt.word)
    (hempty : word = .text Command.unnamed.word → rest ≠ [])
    (hswitches : ∀ i, Invocation.ofArgs args = .ok i →
      i.isOn "help" = false ∧ i.isOn "version" = false) (platform : String) (h : Host) :
    Refused h (run args platform h) := by
  cases hi : Invocation.ofArgs args with
  | error e =>
    simp only [run, hi]
    exact refused_usage _ e.error
  | ok i =>
    obtain ⟨hhelp, hversion⟩ := hswitches i hi
    rw [run_of_ofArgs hi hhelp hversion]
    cases husage : i.usageError? with
    | some e => exact refused_usage _ e
    | none =>
      rcases usageError?_or_words hadds hi (readWords_of_items hp hwords) hspawn hprompt hempty with
        ⟨e, he⟩ | ⟨hcommand, v, vs, hleft⟩
      · rw [husage] at he
        cases he
      · exact refused_act hcommand hleft

/-- The first word is left over by a switch that the command of the second word does not know. -/
theorem refused_of_word_switch :
    let args := ["--dryRun", "x", "prompt"]
    let h : Host := ⟨⟨.directory [], []⟩, {}⟩
    (∃ p rest, Parsed.ofArgs .unnamed args [] = .ok p ∧
      p.words.items = .text "x" :: rest) ∧ AddsNothing args ∧
      (∀ i, Invocation.ofArgs args = .ok i → i.isOn "help" = false ∧ i.isOn "version" = false) ∧
      Refused h (run args "" h) := by
  intro args h
  obtain ⟨p, hp, hitems⟩ := exists_of_toOption_map
    (x := Parsed.ofArgs .unnamed args []) (f := fun p => p.words.items.map (isText "x"))
    (b := [true, false]) (by decide +kernel)
  obtain ⟨word, rest, hwords, hword, -⟩ := List.map_eq_cons_iff.mp hitems
  obtain rfl := isText_iff.mp hword
  have hswitches := Invocation.switchedOff_of_eval args (by decide +kernel)
  have hadds : AddsNothing args := addsNothing_of_undotted (by decide +kernel)
  exact ⟨⟨p, rest, hp, hwords⟩, hadds, hswitches, refused_of_word hp hwords hadds
    (by simp [Command.word]) (by simp [Command.word]) (by simp [Command.word]) hswitches "" h⟩

/-- The empty word by itself is taken for the unnamed command, which generates. -/
theorem not_refused_of_emptyWord :
    ¬ ∀ (args : List String) (p : Parsed) (word : Datum) (rest : List Datum) (platform : String)
      (h : Host), Parsed.ofArgs .unnamed args [] = .ok p →
      p.words.items = word :: rest → word ≠ .text Command.spawnPrompts.word →
      word ≠ .text Command.prompt.word →
      (∀ i, Invocation.ofArgs args = .ok i → i.isOn "help" = false ∧ i.isOn "version" = false) →
      Refused h (run args platform h) := by
  intro hall
  let args := ["", "--count", "1", "--template", "t", "--out-dir", "o"]
  let h : Host := ⟨⟨.directory [("t", .file [65, 123, 78, 125])], []⟩, {}⟩
  obtain ⟨p, hp, hitems⟩ := exists_of_toOption_map
    (x := Parsed.ofArgs .unnamed args []) (f := fun p => p.words.items.map (isText ""))
    (b := [true]) (by decide +kernel)
  obtain ⟨word, rest, hwords, hword, -⟩ := List.map_eq_cons_iff.mp hitems
  obtain rfl := isText_iff.mp hword
  have hswitches := Invocation.switchedOff_of_eval args (by decide +kernel)
  have hrefused := hall args p _ rest "" h hp hwords (by simp [Command.word])
    (by simp [Command.word]) hswitches
  have hsuccess : (run args "" h).status = ExitStatus.success := by decide +kernel
  rw [hrefused.status] at hsuccess
  cases hsuccess

end CommandLine

end AgentPrompts
