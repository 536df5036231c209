import Mathlib.Data.List.TakeWhile
import AgentPrompts.CommandLine.Invocation

/-! # Options as documented

An option is mentioned by the flag that the help text shows. A value follows as a word of
its own, which does not begin with a dash, or behind an equals sign. Mentions are read into
one item each; only a word behind a switch is read into the item of the switch.
-/

namespace AgentPrompts.CommandLine

namespace OptionUsage

def documented : List OptionUsage :=
  [.count, .template, .outDir, .project, .id, .dryRun, .json, .quiet]

theorem mem_documented {c : Command} {o : OptionUsage} (h : o ∈ c.options) : o ∈ documented := by
  revert o
  cases c <;> decide

def flagName (o : OptionUsage) : String :=
  String.ofList ((o.shown.toList.takeWhile (· ≠ ' ')).drop 2)

def flag (o : OptionUsage) : String := "--" ++ o.flagName

theorem flagName_inj : ∀ a ∈ documented, ∀ b ∈ documented, a.flagName = b.flagName → a = b := by
  decide

theorem flagName_eq_iff {a b : OptionUsage} (ha : a ∈ documented) (hb : b ∈ documented) :
    a.flagName = b.flagName ↔ a = b :=
  ⟨flagName_inj a ha b hb, congrArg flagName⟩

example : documented.map flag = ["--count", "--template", "--out-dir", "--project", "--id",
    "--dry-run", "--json", "--quiet"] := by
  decide

end OptionUsage

/-- A flag name that is read as it is written. -/
def IsPlainName (name : String) : Prop :=
  name.toList.head?.any (fun c => c ≠ '-' && c ≠ 'n') = true ∧ '=' ∉ name.toList

theorem isPlainName_flagName : ∀ o ∈ OptionUsage.documented, IsPlainName o.flagName := by
  unfold IsPlainName
  decide

section Words

variable {name : String}

theorem ofString_plain {arg : String} (h : startsWithDash arg = false) :
    Word.ofString arg = .plain := by
  unfold startsWithDash at h
  unfold Word.ofString
  cases hcs : arg.toList with
  | nil => rfl
  | cons c cs =>
    have hc : c ≠ '-' := by simpa [hcs] using h
    simp [hc]

theorem IsPlainName.cases (hname : IsPlainName name) : ∃ c cs, name.toList = c :: cs ∧
    c ≠ '-' ∧ c ≠ 'n' ∧ ∀ b ∈ cs, decide (b ≠ '=') = true := by
  obtain ⟨hhead, hequals⟩ := hname
  obtain ⟨c, hc, hne⟩ := (Option.any_eq_true _ _).mp hhead
  obtain ⟨hdash, hn⟩ : c ≠ '-' ∧ c ≠ 'n' := by simpa using hne
  obtain ⟨cs, hcs⟩ : ∃ cs, name.toList = c :: cs := List.head?_eq_some_iff.mp hc
  refine ⟨c, cs, hcs, hdash, hn, fun b hb => decide_eq_true ?_⟩
  rintro rfl
  exact hequals (hcs ▸ List.mem_cons_of_mem c hb)

theorem ofString_flag (hname : IsPlainName name) (rest : List Char) :
    Word.ofString (String.ofList ('-' :: '-' :: (name.toList ++ rest))) =
      .flag [String.ofList (cutValue (name.toList ++ rest)).1]
        (cutValue (name.toList ++ rest)).2 := by
  obtain ⟨c, cs, hcs, hdash, hn, -⟩ := hname.cases
  simp [Word.ofString, hcs, hdash, hn]

theorem cutValue_name (hname : IsPlainName name) : cutValue name.toList = (name.toList, none) := by
  obtain ⟨c, cs, hcs, -, -, hne⟩ := hname.cases
  rw [hcs]
  simp only [cutValue]
  rw [List.takeWhile_eq_self_iff.mpr hne, List.dropWhile_eq_nil_iff.mpr hne]
  rfl

theorem cutValue_assigned (hname : IsPlainName name) (cs : List Char) :
    cutValue (name.toList ++ '=' :: cs) =
      (name.toList, if cs.isEmpty then none else some (String.ofList cs)) := by
  obtain ⟨c, name', hcs, -, -, hne⟩ := hname.cases
  rw [hcs, List.cons_append]
  simp only [cutValue]
  rw [List.takeWhile_append_of_pos hne, List.dropWhile_append_of_pos hne]
  simp

theorem ofString_name (hname : IsPlainName name) :
    Word.ofString ("--" ++ name) = .flag [name] none := by
  have htext : "--" ++ name = String.ofList ('-' :: '-' :: (name.toList ++ [])) :=
    String.toList_inj.mp (by simp)
  rw [htext, ofString_flag hname, List.append_nil, cutValue_name hname, String.ofList_toList]

theorem ofString_assigned (hname : IsPlainName name) (text : String) :
    Word.ofString ("--" ++ name ++ "=" ++ text) =
      .flag [name] (if text = "" then none else some text) := by
  have htext : "--" ++ name ++ "=" ++ text =
      String.ofList ('-' :: '-' :: (name.toList ++ '=' :: text.toList)) :=
    String.toList_inj.mp (by simp)
  rw [htext, ofString_flag hname, cutValue_assigned hname]
  simp

end Words

section Items

variable {arg next : String} {rest : List String}

theorem items_cons (h : ∀ next ∈ rest.head?, namesForNext arg next = none) :
    items (arg :: rest) = itemsOf arg ++ items rest := by
  cases rest with
  | nil => simp [items]
  | cons next rest => simp [items, h next rfl]

theorem items_pair {names : List String} (h : namesForNext arg next = some names) :
    items (arg :: next :: rest) = giveLast names next ++ items rest := by
  simp [items, h]

theorem items_taken {name : String} (h : Word.ofString arg = .flag [name] none)
    (hplain : startsWithDash next = false) :
    items (arg :: next :: rest) = .value name next :: items rest := by
  have hnext : namesForNext arg next = some [name] := by
    simp [namesForNext, h, hplain]
  exact items_pair hnext

theorem items_assigned {name text : String} (h : Word.ofString arg = .flag [name] (some text)) :
    items (arg :: rest) = .value name text :: items rest := by
  have hitems : itemsOf arg = [.value name text] := by
    simp [itemsOf, h, giveLast, switchOn]
  rw [items_cons fun next _ => by simp [namesForNext, h], hitems]
  rfl

theorem items_word (h : startsWithDash arg = false) :
    items (arg :: rest) = .word arg :: items rest := by
  rw [items_cons fun next _ => by simp [namesForNext, ofString_plain h], itemsOf,
    ofString_plain h]
  rfl

end Items

inductive Mention (c : Command) where
  | spaced (o : OptionUsage) (text : String) (known : o ∈ c.options)
      (takesValue : o.takesValue = true) (plain : startsWithDash text = false)
  | joined (o : OptionUsage) (text : String) (known : o ∈ c.options)
      (takesValue : o.takesValue = true) (given : text ≠ "")
  | switch (o : OptionUsage) (known : o ∈ c.options) (noValue : o.takesValue = false)

namespace Mention

variable {c : Command} {m : Mention c} {ms : List (Mention c)} {rest : List String}

def option : Mention c → OptionUsage
  | spaced o .. => o
  | joined o .. => o
  | switch o .. => o

def words : Mention c → List String
  | spaced o text .. => [o.flag, text]
  | joined o text .. => [o.flag ++ "=" ++ text]
  | switch o .. => [o.flag]

def text? : Mention c → Option String
  | spaced _ text .. => some text
  | joined _ text .. => some text
  | switch .. => none

def name (m : Mention c) : String := m.option.flagName

def item (m : Mention c) : Item :=
  match m.text? with
  | some text => .value m.name text
  | none => .on m.name

theorem known (m : Mention c) : m.option ∈ c.options := by
  cases m <;> assumption

theorem isPlainName (m : Mention c) : IsPlainName m.name :=
  isPlainName_flagName _ (OptionUsage.mem_documented m.known)

theorem startsWithDash_head (m : Mention c) :
    ∀ next ∈ (m.words ++ rest).head?, startsWithDash next = true := by
  have hflag (text : String) : startsWithDash (m.option.flag ++ text) = true := by
    simp [startsWithDash, OptionUsage.flag]
  cases m <;> rintro next ⟨⟩
  · simpa [option] using hflag ""
  · simpa [option, String.append_assoc] using hflag _
  · simpa [option] using hflag ""

/-- A mention is read into its item, unless a plain word follows a switch. -/
theorem items_words (m : Mention c) (h : m.text? = none → ∀ next ∈ rest.head?,
    startsWithDash next = true) : items (m.words ++ rest) = m.item :: items rest := by
  have hname := m.isPlainName
  cases m with
  | spaced o text known takes plain => exact items_taken (ofString_name hname) plain
  | joined o text known takes given =>
    have hword : Word.ofString (o.flag ++ "=" ++ text) = .flag [o.flagName] (some text) := by
      have hassigned := ofString_assigned hname text
      rwa [if_neg given] at hassigned
    exact items_assigned hword
  | switch o known noValue =>
    have hword : Word.ofString o.flag = .flag [o.flagName] none := ofString_name hname
    have hnext : ∀ next ∈ rest.head?, namesForNext o.flag next = none := by
      intro next hn
      simp [namesForNext, hword, h rfl next hn]
    have hitems : itemsOf o.flag = [.on o.flagName] := by
      simp [itemsOf, hword, switchOn]
    exact (items_cons hnext).trans (by rw [hitems]; rfl)

theorem items_switch (m : Mention c) (h : m.text? = none) {word : String}
    (hword : startsWithDash word = false) :
    items (m.words ++ word :: rest) = .value m.name word :: items rest := by
  have hname := m.isPlainName
  cases m with
  | spaced => cases h
  | joined => cases h
  | switch o known noValue => exact items_taken (ofString_name hname) hword

theorem items_flatMap (ms : List (Mention c))
    (h : ∀ next ∈ rest.head?, startsWithDash next = true) :
    items (ms.flatMap words ++ rest) = ms.map item ++ items rest := by
  induction ms with
  | nil => rfl
  | cons m ms ih =>
    have hdash : ∀ next ∈ (ms.flatMap words ++ rest).head?, startsWithDash next = true := by
      cases ms with
      | nil => exact h
      | cons m' ms =>
        rw [List.flatMap_cons, List.append_assoc]
        exact m'.startsWithDash_head
    rw [List.flatMap_cons, List.append_assoc, items_words m fun _ => hdash, ih]
    rfl

theorem items_mentions (ms : List (Mention c)) : items (ms.flatMap words) = ms.map item := by
  have h : items (ms.flatMap words ++ []) = ms.map item ++ items [] :=
    items_flatMap ms (by simp)
  rwa [List.append_nil, items, List.append_nil] at h

/-- A plain word among mentions is read as a word or as the value of the switch before it. -/
theorem items_between (before after : List (Mention c)) {word : String}
    (hword : startsWithDash word = false) :
    items (before.flatMap words ++ word :: after.flatMap words) =
        before.map item ++ .word word :: after.map item ∨
      ∃ others m, before = others ++ [m] ∧ m.text? = none ∧
        items (before.flatMap words ++ word :: after.flatMap words) =
          others.map item ++ .value m.name word :: after.map item := by
  have hafter : items (word :: after.flatMap words) = .word word :: after.map item := by
    rw [items_word hword, items_mentions]
  rcases before.eq_nil_or_concat with rfl | ⟨others, m, h⟩
  · exact Or.inl hafter
  · rw [List.concat_eq_append] at h
    subst h
    have hsplit (rest : List String) : (others ++ [m]).flatMap words ++ rest =
        others.flatMap words ++ (m.words ++ rest) := by
      simp [List.append_assoc]
    rw [hsplit, items_flatMap others m.startsWithDash_head]
    cases htext : m.text? with
    | some text =>
      left
      rw [items_words m (by simp [htext]), hafter]
      simp
    | none =>
      right
      refine ⟨others, m, rfl, htext, ?_⟩
      rw [items_switch m htext hword, items_mentions]

end Mention

end AgentPrompts.CommandLine
