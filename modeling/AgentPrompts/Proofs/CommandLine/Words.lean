import AgentPrompts.Proofs.CommandLine.Additions
import AgentPrompts.Proofs.CommandLine.Kept

/-! # Words and named flags

Reading a command line collects plain words, and flags by their names. Neither looks at the
other: the words take their own steps, whatever the flags have, and the flags are the same behind
any words. So a reading is two readings, and only that of the words can fail on its way.
-/

namespace AgentPrompts.CommandLine

open Flags

inductive WordStep where
  | push (v : Datum)
  /-- The name of the words is used as a flag with a value. -/
  | give (v : Datum)
  | close

namespace WordStep

/-- The words after a step; once they are closed there are none. -/
def apply : Option (List Datum) → WordStep → Except UsageError (Option (List Datum))
  | some vs, push v => .ok (some (vs ++ [v]))
  | none, push _ => .error .wordsClosed
  | some vs, give v => .ok (some (vs ++ [v]))
  | none, give v => .ok (some [.bool false, v])
  | _, close => .ok none

end WordStep

def givenSteps (name : String) (v : Datum) : List WordStep :=
  if name = wordsName then [.give v] else []

namespace Item

/-- The steps of the words for an item. A switch leaves a text that it does not take. -/
def wordSteps (switches : List String) : Item → List WordStep
  | word text => [.push (.text text)]
  | off name => if name = wordsName then [.close] else []
  | on name => givenSteps name (.bool true)
  | value name text =>
    if name ∈ switches then
      if text = "false" then givenSteps name (.bool false)
      else if text = "true" then givenSteps name (.bool true)
      else .push (valueOf text) :: givenSteps name (.bool (text ≠ ""))
    else givenSteps name (valueOf text)

def given? (switches : List String) : Item → Option (String × Datum)
  | on name => some (name, .bool true)
  | value name text =>
    some (name, if name ∈ switches then .bool (text ≠ "false" && text ≠ "") else valueOf text)
  | _ => none

end Item

namespace Flags

def readNamed (switches : List String) (flags : Flags) : Item → Flags
  | .off name => if name = wordsName then flags else flags.replace name (.bool false)
  | item =>
    match item.given? switches with
    | some (name, v) => if name = wordsName then flags else flags.add [] name v
    | none => flags

def wordsOf : Option (List Datum) → Datum
  | some vs => .ofItems vs
  | none => .bool false

def withWords (words : Option (List Datum)) (flags : Flags) : Flags :=
  ⟨(wordsName, wordsOf words) :: flags.members, flags.parent⟩

def noFlags : Flags := ⟨[], Datum.emptyRecord.parent⟩

section Steps

variable {name : String} {v : Datum} {words : Option (List Datum)} {flags : Flags}
  {switches : List String} {additions : Additions}

theorem wordsName_ne_parentName : wordsName ≠ Datum.parentName := by decide

@[simp] theorem words_withWords : (flags.withWords words).words = wordsOf words := by
  simp [withWords, Flags.words, Members.get?]

theorem replace_withWords (h : name ≠ wordsName) (v : Datum) :
    (flags.withWords words).replace name v = (flags.replace name v).withWords words := by
  unfold replace
  split
  next => split <;> rfl
  next => simp [withWords, Members.set, h.symm]

theorem replace_words (words' : Option (List Datum)) :
    (flags.withWords words).replace wordsName (wordsOf words') = flags.withWords words' := by
  rw [replace, if_neg wordsName_ne_parentName]
  simp [withWords, Members.set]

theorem get_withWords (h : name ≠ wordsName) :
    (flags.withWords words).get additions name = flags.get additions name := by
  simp [get, record, Datum.get, withWords, Datum.member?, Datum.parent, Members.get?,
    Members.lookup_member, h]

theorem get_words : (flags.withWords words).get additions wordsName = wordsOf words := by
  simp [get, record, Datum.get, wordsName_ne_parentName, withWords, Datum.member?, Members.get?]

theorem add_withWords (h : name ≠ wordsName) (v : Datum) :
    (flags.withWords words).add additions name v = (flags.add additions name v).withWords words := by
  rw [add, get_withWords h, replace_withWords h, add]

theorem addWord_withWords (v : Datum) : (flags.withWords words).addWord v =
    (WordStep.apply words (.push v)).map (withWords · flags) := by
  rw [addWord, words_withWords]
  cases words with
  | none => rfl
  | some vs =>
    have hpush : (wordsOf (some vs)).push v = wordsOf (some (vs ++ [v])) := Datum.push_ofItems vs v
    rw [hpush, replace_words]
    rfl

theorem add_words (v : Datum) : ∃ words', WordStep.apply words (.give v) = .ok words' ∧
    (flags.withWords words).add additions wordsName v = flags.withWords words' := by
  rw [add, get_words]
  cases words with
  | none => exact ⟨_, rfl, replace_words (some [.bool false, v])⟩
  | some vs =>
    have hitems : (wordsOf (some vs)).items = vs := Datum.items_ofItems vs
    rw [hitems]
    exact ⟨_, rfl, replace_words (some (vs ++ [v]))⟩

theorem add_eq (name : String) (v : Datum) :
    .ok ((flags.withWords words).add additions name v) =
      ((givenSteps name v).foldlM WordStep.apply words).map
        (withWords · (if name = wordsName then flags else flags.add additions name v)) := by
  rw [givenSteps]
  split
  next h =>
    obtain ⟨words', happly, hadd⟩ : ∃ words', WordStep.apply words (.give v) = .ok words' ∧
        (flags.withWords words).add additions wordsName v = flags.withWords words' := add_words v
    rw [h, hadd, List.foldlM_cons, happly]
    rfl
  next h =>
    rw [add_withWords h]
    rfl

/-- An item is read by the words and by the flags apart from each other. -/
theorem addItem_withWords (item : Item) :
    (flags.withWords words).addItem (.ofSwitches switches) [] item =
      ((item.wordSteps switches).foldlM WordStep.apply words).map
        (withWords · (flags.readNamed switches item)) := by
  cases item with
  | word text =>
    rw [addItem, addWord_withWords, Item.wordSteps, List.foldlM_cons]
    cases WordStep.apply words (.push (.text text)) <;> rfl
  | off name =>
    rw [addItem, Item.wordSteps, readNamed]
    split
    next h =>
      have hclose : (flags.withWords words).replace wordsName (.bool false) =
          flags.withWords none := replace_words none
      rw [h, hclose]
      cases words <;> rfl
    next h =>
      rw [replace_withWords h]
      rfl
  | on name =>
    rw [addItem_on]
    exact add_eq name _
  | value name text =>
    rw [addItem_value, Item.wordSteps]
    by_cases hswitch : name ∈ switches
    · by_cases hfalse : text = "false"
      · subst hfalse
        simpa [readNamed, Item.given?, hswitch] using add_eq name (.bool false)
      by_cases htrue : text = "true"
      · subst htrue
        simpa [readNamed, Item.given?, hswitch] using add_eq name (.bool true)
      rw [if_pos hswitch, if_pos hswitch, if_neg hfalse, if_neg hfalse, if_neg htrue, if_neg htrue,
        addWord_withWords, List.foldlM_cons]
      cases hpush : WordStep.apply words (.push (valueOf text)) with
      | error e => rfl
      | ok words' =>
        change Except.ok _ = Except.map _ (List.foldlM WordStep.apply words' _)
        simpa [readNamed, Item.given?, hswitch, hfalse] using add_eq name (.bool (text ≠ ""))
    · simpa [readNamed, Item.given?, hswitch] using add_eq name (valueOf text)

theorem foldlM_addItem (is : List Item) :
    is.foldlM (addItem (.ofSwitches switches) []) (flags.withWords words) =
      ((is.flatMap (Item.wordSteps switches)).foldlM WordStep.apply words).map
        (withWords · (is.foldl (readNamed switches) flags)) := by
  induction is generalizing words flags with
  | nil => rfl
  | cons item is ih =>
    rw [List.foldlM_cons, addItem_withWords, List.flatMap_cons, List.foldlM_append]
    cases (item.wordSteps switches).foldlM WordStep.apply words with
    | error e => rfl
    | ok words' => exact ih

theorem ne_wordsName_of_alias? {other : String} (h : alias? name = some other) :
    name ≠ wordsName ∧ other ≠ wordsName := by
  have hglobal : ∀ name ∈ ["h", "help", "v", "version"], name ≠ wordsName := by decide
  obtain ⟨hname, hother⟩ := globals_of_alias? h
  exact ⟨hglobal name hname, hglobal other hother⟩

theorem addAlias_withWords (name : String) :
    (flags.withWords words).addAlias name = (flags.addAlias name).withWords words := by
  rw [addAlias, addAlias]
  cases halias : alias? name with
  | none => rfl
  | some other =>
    obtain ⟨hname, hother⟩ := ne_wordsName_of_alias? halias
    simp only [get_withWords hname, replace_withWords hother]

theorem names_eq (flags : Flags) : flags.names = (Members.listed flags.members).map Prod.fst ++
    (flags.parent.enumerated []).filter fun name => name ∉ flags.members.map Prod.fst := by
  have hlisted (name : String) : ((Members.listed flags.members).map Prod.fst).contains name =
      decide (name ∈ flags.members.map Prod.fst) := by
    simp [Members.mem_listed]
  rw [names, record, Datum.enumerated]
  simp only [hlisted, Option.isSome_none, Bool.false_and, Bool.not_false, Bool.and_true,
    decide_not]

theorem names_withWords : (flags.withWords words).names.filter (· ≠ wordsName) =
    flags.names.filter (· ≠ wordsName) := by
  have hindex : Members.index? wordsName = none := by decide
  have hwithout (ms : Members Datum) : ((Members.listed ms).map Prod.fst).filter (· ≠ wordsName) =
      (Members.listed (Members.without wordsName ms)).map Prod.fst := by
    rw [← Members.without_listed hindex, List.filter_map]
    rfl
  rw [names_eq, names_eq, List.filter_append, List.filter_append, hwithout, hwithout, withWords,
    Members.without_cons, if_pos rfl, List.filter_filter, List.filter_filter]
  congr 2
  funext name
  by_cases hname : name = wordsName <;> simp [hname]

theorem addAliases_withWords : (flags.withWords words).addAliases =
    flags.addAliases.withWords words := by
  have hwithout (flags : Flags) : flags.addAliases =
      (flags.names.filter (· ≠ wordsName)).foldl addAlias flags := by
    have hwords : alias? wordsName = none := by decide
    rw [addAliases, List.foldl_filter]
    congr 1
    funext flags name
    by_cases hname : name = wordsName <;> simp [hname, addAlias, hwords]
  rw [hwithout, hwithout, names_withWords]
  exact List.foldl_hom (withWords words) fun flags name => addAlias_withWords name

end Steps

/-- Collecting items, by the words and by the flags apart from each other. -/
theorem ofItems_apart (switches : List String) (is : List Item) :
    ofItems (.ofSwitches switches) [] is =
      ((is.flatMap (Item.wordSteps switches)).foldlM WordStep.apply (some [])).bind fun words =>
        if (is.foldl (readNamed switches) noFlags).names.any (· ∈ reservedNames) then
          .error .reservedName
        else .ok ((is.foldl (readNamed switches) noFlags).addAliases.withWords words) := by
  have hempty : Flags.empty = noFlags.withWords (some []) := rfl
  rw [ofItems_eq, hempty, foldlM_addItem]
  generalize is.foldl (readNamed switches) noFlags = flags
  cases (is.flatMap (Item.wordSteps switches)).foldlM WordStep.apply (some []) with
  | error e => rfl
  | ok words =>
    have hwithout (names : List String) : names.any (· ∈ reservedNames) =
        (names.filter (· ≠ wordsName)).any (· ∈ reservedNames) := by
      have hwords : wordsName ∉ reservedNames := by decide
      rw [List.any_filter]
      congr 1
      funext name
      by_cases hname : name = wordsName <;> simp [hname, hwords]
    change (if (flags.withWords words).names.any (· ∈ reservedNames) then _ else _) =
      if _ then _ else _
    rw [hwithout, names_withWords, ← hwithout]
    split
    next => rfl
    next => exact congrArg Except.ok addAliases_withWords

section Names

variable {name : String} {flags : Flags} {switches : List String}

theorem mem_names_replace_iff (other : String) (v : Datum) :
    name ∈ (flags.replace other v).members.map Prod.fst ↔
      name ∈ flags.members.map Prod.fst ∨ other = name ∧ name ≠ Datum.parentName := by
  unfold replace
  split
  next h =>
    have hparent : ¬ (other = name ∧ name ≠ Datum.parentName) := by
      rintro ⟨rfl, hne⟩
      exact hne h
    split <;> simp [hparent]
  next h =>
    rw [Members.mem_map_fst_set]
    constructor
    · rintro (rfl | hname)
      · exact Or.inr ⟨rfl, h⟩
      · exact Or.inl hname
    · rintro (hname | ⟨rfl, -⟩)
      · exact Or.inr hname
      · exact Or.inl rfl

theorem mem_names_readNamed_iff (item : Item) :
    name ∈ (flags.readNamed switches item).members.map Prod.fst ↔
      name ∈ flags.members.map Prod.fst ∨
        item.name? = some name ∧ name ≠ wordsName ∧ name ≠ Datum.parentName := by
  have hset (other : String) (v : Datum) :
      name ∈ (if other = wordsName then flags else flags.replace other v).members.map Prod.fst ↔
        name ∈ flags.members.map Prod.fst ∨
          some other = some name ∧ name ≠ wordsName ∧ name ≠ Datum.parentName := by
    split
    next h =>
      have hwords : ¬ (some other = some name ∧ name ≠ wordsName ∧ name ≠ Datum.parentName) := by
        rintro ⟨he, hne, -⟩
        exact hne ((Option.some_inj.mp he).symm.trans h)
      rw [or_iff_left hwords]
    next h =>
      rw [mem_names_replace_iff, Option.some_inj]
      constructor
      · rintro (hname | ⟨rfl, hne⟩)
        · exact Or.inl hname
        · exact Or.inr ⟨rfl, h, hne⟩
      · rintro (hname | ⟨he, -, hne⟩)
        · exact Or.inl hname
        · exact Or.inr ⟨he, hne⟩
  cases item with
  | word text => simp [readNamed, Item.given?, Item.name?]
  | off other => exact hset other _
  | on other => exact hset other _
  | value other text => exact hset other _

theorem mem_names_foldl_iff (is : List Item) :
    name ∈ (is.foldl (readNamed switches) flags).members.map Prod.fst ↔
      name ∈ flags.members.map Prod.fst ∨
        (∃ item ∈ is, item.name? = some name) ∧ name ≠ wordsName ∧ name ≠ Datum.parentName := by
  induction is generalizing flags with
  | nil => simp
  | cons item is ih =>
    rw [List.foldl_cons, ih, mem_names_readNamed_iff, List.exists_mem_cons_iff, or_and_right,
      or_assoc]

theorem mem_names_addAliases (h : name ∈ flags.members.map Prod.fst) :
    name ∈ flags.addAliases.members.map Prod.fst := by
  refine List.foldlRecOn (motive := fun acc : Flags => name ∈ acc.members.map Prod.fst)
    flags.names _ h fun acc hacc found _ => ?_
  rw [addAlias]
  split
  next => exact (mem_names_replace_iff _ _).mpr (Or.inl hacc)
  next => exact hacc

theorem mem_names_of_addAliases (h : name ∈ flags.addAliases.members.map Prod.fst) :
    name ∈ flags.members.map Prod.fst ∨ name ∈ ["h", "help", "v", "version"] := by
  revert h
  refine List.foldlRecOn (motive := fun acc : Flags => name ∈ acc.members.map Prod.fst →
    name ∈ flags.members.map Prod.fst ∨ name ∈ ["h", "help", "v", "version"])
    flags.names _ Or.inl fun acc hacc found _ hname => ?_
  rw [addAlias] at hname
  split at hname
  next other halias =>
    rcases (mem_names_replace_iff _ _).mp hname with hname | ⟨rfl, -⟩
    · exact hacc hname
    · exact Or.inr (globals_of_alias? halias).2
  next => exact hacc hname

end Names

theorem optionsOf_withWords (start : Datum) (words : Option (List Datum)) (flags : Flags)
    (additions : Additions) :
    optionsOf start (flags.withWords words) additions = optionsOf start flags additions := by
  have hindex : Members.index? wordsName = none := by decide
  have hname : optionName wordsName = wordsName := by decide
  -- The words are passed over, so they may be left out from the start.
  have hwithout (flags : Flags) : optionsOf start flags additions =
      (Members.ofList (Members.without wordsName
        ((Members.listed (Members.without wordsName flags.members)).map fun m =>
          (optionName m.1, m.2)))).foldlM
        (fun state m => Datum.assign m.2 (nameParts m.1) state.2 state.1) (start, additions) := by
    have hnamed : Members.without wordsName
        ((Members.listed (Members.without wordsName flags.members)).map fun m =>
          (optionName m.1, m.2)) =
        Members.without wordsName ((Members.listed flags.members).map fun m =>
          (optionName m.1, m.2)) := by
      rw [← Members.without_listed hindex, Members.without, Members.without, Members.without,
        List.filter_map, List.filter_map, List.filter_filter]
      congr 2
      funext m
      by_cases hm : m.1 = wordsName <;> simp [hm, hname]
    rw [optionsOf, hnamed, ← Members.without_ofList hindex, Members.without, List.foldlM_filter]
    congr 1
    funext state m
    by_cases hm : m.1 = wordsName <;> simp [hm]
  rw [hwithout, hwithout]
  rfl

end Flags

def readWords (switches args : List String) : Except UsageError (Option (List Datum)) :=
  ((items (args.takeWhile (· ≠ "--"))).flatMap (Item.wordSteps switches)).foldlM WordStep.apply
    (some [])

def readFlags (switches args : List String) : Flags :=
  (items (args.takeWhile (· ≠ "--"))).foldl (readNamed switches) noFlags

def readOptions (switches args : List String) : Except ReadingError (Datum × Additions) :=
  if (readFlags switches args).names.any (· ∈ reservedNames) then .error ⟨.reservedName, []⟩
  else
    (optionsOf (noOptions ((args.dropWhile (· ≠ "--")).drop 1))
      (readFlags switches args).addAliases []).mapError fun e => ⟨.assignment e.1, e.2⟩

theorem optionsOf_of_readOptions {switches args : List String} {r : Datum × Additions}
    (h : readOptions switches args = .ok r) :
    optionsOf (noOptions ((args.dropWhile (· ≠ "--")).drop 1))
      (readFlags switches args).addAliases [] = .ok r := by
  rw [readOptions] at h
  split at h
  next => cases h
  next => exact ok_of_mapError_eq_ok h

/-- A command line is read by its words and by its options apart from each other. -/
theorem Parsed.ofArgs_apart (c : Command) (args : List String) : Parsed.ofArgs c args [] =
    ((readWords c.switches args).mapError fun e => ⟨e, []⟩).bind fun words =>
      (readOptions c.switches args).map fun r => ⟨wordsOf words, r.1, r.2⟩ := by
  rw [Parsed.ofArgs_eq, ofItems_apart, ← readWords, ← readFlags, readOptions]
  cases readWords c.switches args with
  | error e => rfl
  | ok words =>
    by_cases hreserved : (readFlags c.switches args).names.any (· ∈ reservedNames) = true
    · simp only [Except.bind, if_pos hreserved]
      rfl
    · simp only [Except.bind, Except.mapError, if_neg hreserved, optionsOf_withWords,
        words_withWords]

theorem Parsed.exists_of_ofArgs {c : Command} {args : List String} {p : Parsed}
    (h : Parsed.ofArgs c args [] = .ok p) : ∃ ws r, readWords c.switches args = .ok ws ∧
      readOptions c.switches args = .ok r ∧ p = ⟨wordsOf ws, r.1, r.2⟩ := by
  rw [Parsed.ofArgs_apart] at h
  obtain ⟨ws, hws, h⟩ := exists_of_bind_eq_ok h
  obtain ⟨r, hr, h⟩ := exists_of_map_eq_ok h
  exact ⟨ws, r, ok_of_mapError_eq_ok hws, hr, h.symm⟩

section FirstWord

theorem isText_iff {s : String} {d : Datum} : isText s d = true ↔ d = .text s := by
  cases d <;> simp [isText]

@[simp] theorem firstWord_wordsOf (vs : List Datum) :
    firstWord (wordsOf (some vs)) [] = vs.headD .absent :=
  firstWord_ofItems vs

@[simp] theorem afterFirst_wordsOf (vs : List Datum) :
    afterFirst (wordsOf (some vs)) = .ofItems (vs.drop 1) := by
  have hlist : (wordsOf (some vs)).isList = true := rfl
  rw [afterFirst, if_pos hlist, wordsOf, Datum.items_ofItems]

end FirstWord

end AgentPrompts.CommandLine
