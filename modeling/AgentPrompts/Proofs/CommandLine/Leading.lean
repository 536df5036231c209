import AgentPrompts.Proofs.CommandLine.Unknown

/-! # A word in front

A plain word in front of a command line changes none of its options. The words that are found
behind it are open or closed as they are without it, so the readings for the commands differ in
nothing but their words, if all commands find the same.
-/

namespace AgentPrompts.CommandLine

open Flags

section Words

variable {ws ws' ws₁ : Option (List Datum)} {steps : List WordStep}

inductive WordsAlike :
    Except UsageError (Option (List Datum)) → Except UsageError (Option (List Datum)) → Prop where
  | error (e : UsageError) : WordsAlike (.error e) (.error e)
  | ok {ws ws' : Option (List Datum)} (h : ws.isSome = ws'.isSome) : WordsAlike (.ok ws) (.ok ws')

theorem WordsAlike.exists_ok {x x' : Except UsageError (Option (List Datum))} (h : WordsAlike x x')
    (hx : x = .ok ws) : ∃ ws', x' = .ok ws' ∧ ws.isSome = ws'.isSome := by
  cases h with
  | error => cases hx
  | ok h =>
    obtain rfl := Except.ok.inj hx
    exact ⟨_, rfl, h⟩

theorem apply_alike (h : ws.isSome = ws'.isSome) (step : WordStep) :
    WordsAlike (WordStep.apply ws step) (WordStep.apply ws' step) := by
  cases ws <;> cases ws' <;> cases h <;> cases step <;> constructor <;> rfl

theorem foldlM_alike (h : ws.isSome = ws'.isSome) (steps : List WordStep) :
    WordsAlike (steps.foldlM WordStep.apply ws) (steps.foldlM WordStep.apply ws') := by
  induction steps generalizing ws ws' with
  | nil => exact .ok h
  | cons step steps ih =>
    have hstep := apply_alike h step
    rw [List.foldlM_cons, List.foldlM_cons]
    generalize WordStep.apply ws step = x, WordStep.apply ws' step = x' at hstep ⊢
    cases hstep with
    | error e => exact .error e
    | ok h => exact ih h

theorem apply_ne_nil {step : WordStep} (h : WordStep.apply ws step = .ok ws₁) : ws₁ ≠ some [] := by
  cases ws <;> cases step <;> simp [WordStep.apply] at h <;> simp [← h]

theorem steps_eq_nil (h : steps.foldlM WordStep.apply (some []) = .ok (some [])) : steps = [] := by
  cases steps with
  | nil => rfl
  | cons step steps =>
    rw [List.foldlM_cons] at h
    obtain ⟨ws, hstep, h⟩ := exists_of_bind_eq_ok h
    exact absurd rfl (foldlM_keeps (fun _ ws => ws ≠ some [])
      (fun _ _ _ _ _ hnext => apply_ne_nil hnext) (apply_ne_nil hstep) h)

theorem wordSteps_unnamed (item : Item) :
    item.wordSteps Command.unnamed.switches = item.wordSteps Command.prompt.switches ∨
      ∃ v, item.wordSteps Command.unnamed.switches =
        .push v :: item.wordSteps Command.prompt.switches := by
  by_cases h : ∃ text, item = .value "dryRun" text
  · obtain ⟨text, rfl⟩ := h
    have hunnamed : "dryRun" ∈ Command.unnamed.switches := by decide
    have hprompt : "dryRun" ∉ Command.prompt.switches := by decide
    have hgiven (v : Datum) : givenSteps "dryRun" v = [] := if_neg (by decide)
    simp only [Item.wordSteps, if_pos hunnamed, if_neg hprompt, hgiven]
    split
    next => exact Or.inl rfl
    next =>
      split
      next => exact Or.inl rfl
      next => exact Or.inr ⟨_, rfl⟩
  · exact Or.inl (wordSteps_prompt (not_exists.mp h)).symm

theorem foldlM_prompt {is : List Item} (h : ws.isSome = ws'.isSome)
    (hws : (is.flatMap (Item.wordSteps Command.unnamed.switches)).foldlM WordStep.apply ws =
      .ok ws₁) :
    ∃ ws₁', (is.flatMap (Item.wordSteps Command.prompt.switches)).foldlM WordStep.apply ws' =
      .ok ws₁' ∧ ws₁.isSome = ws₁'.isSome := by
  induction is generalizing ws ws' with
  | nil => exact ⟨ws', rfl, Except.ok.inj hws ▸ h⟩
  | cons item is ih =>
    have hnext {ws₂ ws₂' : Option (List Datum)} (h₂ : ws₂.isSome = ws₂'.isSome)
        (hws : ((item.wordSteps Command.prompt.switches).foldlM WordStep.apply ws₂ >>= fun ws =>
          (is.flatMap (Item.wordSteps Command.unnamed.switches)).foldlM WordStep.apply ws) =
          .ok ws₁) :
        ∃ ws₁', ((item.wordSteps Command.prompt.switches).foldlM WordStep.apply ws₂' >>= fun ws =>
          (is.flatMap (Item.wordSteps Command.prompt.switches)).foldlM WordStep.apply ws) =
          .ok ws₁' ∧ ws₁.isSome = ws₁'.isSome := by
      obtain ⟨ws₃, hitem, hws⟩ := exists_of_bind_eq_ok hws
      obtain ⟨ws₃', hitem', h₃⟩ := (foldlM_alike h₂ _).exists_ok hitem
      rw [hitem']
      exact ih h₃ hws
    rw [List.flatMap_cons, List.foldlM_append] at hws ⊢
    rcases wordSteps_unnamed item with hsteps | ⟨v, hsteps⟩
    · rw [hsteps] at hws
      exact hnext h hws
    · rw [hsteps, List.foldlM_cons] at hws
      -- A word more leaves open words open.
      cases hpush : WordStep.apply ws (.push v) with
      | error e =>
        rw [hpush] at hws
        cases hws
      | ok ws₂ =>
        rw [hpush] at hws
        refine hnext ?_ hws
        rw [← h]
        cases ws <;> simp [WordStep.apply] at hpush
        simp [← hpush]

end Words

section Word

variable {args : List String} {ws : Option (List Datum)} {word : String} {c : Command}

theorem cut_word (hword : startsWithDash word = false) (args : List String) :
    (word :: args).takeWhile (· ≠ "--") = word :: args.takeWhile (· ≠ "--") ∧
      (word :: args).dropWhile (· ≠ "--") = args.dropWhile (· ≠ "--") := by
  have hne : word ≠ "--" := by
    rintro rfl
    cases hword
  simp [hne]

theorem readOptions_word (hword : startsWithDash word = false) (switches args : List String) :
    readOptions switches (word :: args) = readOptions switches args := by
  obtain ⟨htake, hdrop⟩ := cut_word hword args
  have hflags : readFlags switches (word :: args) = readFlags switches args := by
    rw [readFlags, htake, items_word hword]
    rfl
  rw [readOptions, readOptions, hflags, hdrop]

theorem readWords_word (hword : startsWithDash word = false) (switches args : List String) :
    readWords switches (word :: args) =
      ((items (args.takeWhile (· ≠ "--"))).flatMap (Item.wordSteps switches)).foldlM WordStep.apply
        (some [.text word]) := by
  rw [readWords, (cut_word hword args).1, items_word hword]
  rfl

theorem readWords_word_alike (hword : startsWithDash word = false) (switches args : List String) :
    WordsAlike (readWords switches args) (readWords switches (word :: args)) := by
  rw [readWords_word hword]
  exact foldlM_alike (by rfl) _

theorem readWords_prompt (hws : readWords Command.unnamed.switches args = .ok ws) :
    ∃ ws', readWords Command.prompt.switches args = .ok ws' ∧ ws.isSome = ws'.isSome :=
  foldlM_prompt rfl hws

theorem Parsed.ofArgs_word_of_error (hword : startsWithDash word = false) {e : ReadingError}
    (h : Parsed.ofArgs c args [] = .error e) : Parsed.ofArgs c (word :: args) [] = .error e := by
  have halike := readWords_word_alike hword c.switches args
  rw [Parsed.ofArgs_apart] at h ⊢
  rw [readOptions_word hword]
  generalize readWords c.switches args = x, readWords c.switches (word :: args) = x' at halike h ⊢
  cases halike with
  | error => exact h
  | ok =>
    cases hr : readOptions c.switches args with
    | error e' =>
      rw [hr] at h
      exact h
    | ok r =>
      rw [hr] at h
      cases h

/-- Where no words are found, no command finds any, and a word in front is found alone. -/
theorem readWords_of_open (hword : startsWithDash word = false)
    (hws : readWords Command.unnamed.switches args = .ok (some [])) (c : Command) :
    readWords c.switches args = .ok (some []) ∧
      readWords c.switches (word :: args) = .ok (some [.text word]) := by
  have hsteps : (items (args.takeWhile (· ≠ "--"))).flatMap (Item.wordSteps c.switches) = [] := by
    have hunnamed := steps_eq_nil hws
    cases c with
    | spawnPrompts => exact hunnamed
    | unnamed => exact hunnamed
    | prompt =>
      refine List.flatMap_eq_nil_iff.mpr fun item hitem => ?_
      have hnil := List.flatMap_eq_nil_iff.mp hunnamed item hitem
      rcases wordSteps_unnamed item with hsame | ⟨v, hmore⟩
      · rw [← hsame, hnil]
      · rw [hnil] at hmore
        cases hmore
  rw [readWords_word hword, readWords, hsteps]
  exact ⟨rfl, rfl⟩

/-- Where the words are closed, every command finds them closed, also behind a word. -/
theorem readWords_of_closed (hword : startsWithDash word = false)
    (hws : readWords Command.unnamed.switches args = .ok none) (c : Command) :
    readWords c.switches args = .ok none ∧ readWords c.switches (word :: args) = .ok none := by
  have hclosed : readWords c.switches args = .ok none := by
    cases c with
    | spawnPrompts => exact hws
    | unnamed => exact hws
    | prompt =>
      obtain ⟨ws', hws', hnone⟩ := readWords_prompt hws
      obtain rfl : ws' = none := by simpa using hnone.symm
      exact hws'
  obtain ⟨ws', hws', hnone⟩ := (readWords_word_alike hword c.switches args).exists_ok hclosed
  obtain rfl : ws' = none := by simpa using hnone.symm
  exact ⟨hclosed, hws'⟩

end Word

section Readings

variable {args : List String} {word : String}

/-- A word in front changes nothing in the readings but the words. -/
theorem readings_word (hadds : AddsNothing args) (hword : startsWithDash word = false)
    {ws ws' : Option (List Datum)} (hws : ∀ c : Command, readWords c.switches args = .ok ws)
    (hws' : ∀ c : Command, readWords c.switches (word :: args) = .ok ws') (cs : List Command) :
    readings (word :: args) cs [] = (readings args cs []).map fun r =>
      (r.1.map fun q => (q.1, { q.2 with words := wordsOf ws' }), r.2) := by
  induction cs with
  | nil => rfl
  | cons c cs ih =>
    have hp := Parsed.ofArgs_apart c args
    have hp' := Parsed.ofArgs_apart c (word :: args)
    rw [hws] at hp
    rw [hws', readOptions_word hword] at hp'
    rw [readings, readings, hp, hp']
    cases hr : readOptions c.switches args with
    | error e => rfl
    | ok r =>
      rw [hr] at hp
      have hnone : r.2 = [] := hadds.additions_eq_nil hp
      simp only [bind, Except.bind, Except.map, Except.mapError, hnone, ih]
      cases readings args cs [] <;> rfl

theorem commands_of_readings {cs : List Command} {before : Additions}
    {r : List (Command × Parsed) × Additions} (h : readings args cs before = .ok r) :
    r.1.map Prod.fst = cs := by
  induction cs generalizing before r with
  | nil => exact Except.ok.inj h ▸ rfl
  | cons c cs ih =>
    rw [readings] at h
    obtain ⟨p, -, h⟩ := exists_of_bind_eq_ok h
    obtain ⟨rest, hrest, h⟩ := exists_of_bind_eq_ok h
    rw [← Except.ok.inj h, List.map_cons, ih hrest]

end Readings

end AgentPrompts.CommandLine
