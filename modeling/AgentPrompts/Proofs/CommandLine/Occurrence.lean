import AgentPrompts.Proofs.CommandLine.Held
import AgentPrompts.Proofs.CommandLine.Lookup

/-! # Occurrences of path flags

A path may be given by a flag in the spelling of the help text or in that of its option, with
the value in the next word, behind an equals sign, or in the next word behind an equals sign.
Each occurrence is read into one item, and the scan for the text of the option finds the last
occurrence that is spelled as in the help text.
-/

namespace AgentPrompts.CommandLine

open OptionUsage

inductive Form where
  | spaced
  | joined
  /-- The value is the next word, behind an equals sign with nothing after it. -/
  | behind
  deriving DecidableEq, Repr

def paths : List OptionUsage := [.template, .outDir, .project]

structure Occurrence where
  option : OptionUsage
  name : String
  form : Form
  text : String
  isPath : option ∈ paths
  spelled : name = option.flagName ∨ name = option.key
  taken : if form = .joined then text ≠ "" else startsWithDash text = false

theorem cases_of_mem_paths {a : OptionUsage} (ha : a ∈ paths) :
    a = .template ∨ a = .outDir ∨ a = .project := by
  simpa [paths] using ha

theorem mem_documented_of_paths : ∀ a ∈ paths, a ∈ documented := by
  decide

theorem isFlagOf_paths : ∀ a ∈ paths, ∀ name ∈ [a.flagName, a.key], IsFlagOf name a.key := by
  intro a ha name hname
  constructor
  · constructor <;> revert a name <;> decide
  all_goals revert a name; decide

theorem isPlainName_paths : ∀ a ∈ paths, ∀ name ∈ [a.flagName, a.key], IsPlainName name := by
  unfold IsPlainName
  decide

theorem not_switch_paths (c : Command) :
    ∀ a ∈ paths, ∀ name ∈ [a.flagName, a.key], name ∉ c.switches := by
  cases c <;> decide

theorem mem_names_of_flag {a : OptionUsage} {arg : String} (ha : a ∈ documented)
    (h : arg = a.flag ∨ a.flag.toList ++ ['='] <+: arg.toList) :
    a.flagName ∈ (Word.ofString arg).names := by
  have hname := isPlainName_flagName a ha
  rcases h with rfl | ⟨text, htext⟩
  · have hword : Word.ofString a.flag = .flag [a.flagName] none := ofString_name hname
    rw [hword]
    exact List.mem_singleton_self _
  · obtain rfl : "--" ++ a.flagName ++ "=" ++ String.ofList text = arg := by
      rw [← String.toList_inj, ← htext]
      simp [flag]
    rw [ofString_assigned hname]
    exact List.mem_singleton_self _

namespace Occurrence

variable {o : Occurrence} {rest : List String}

def words (o : Occurrence) : List String :=
  match o.form with
  | .spaced => ["--" ++ o.name, o.text]
  | .joined => ["--" ++ o.name ++ "=" ++ o.text]
  | .behind => ["--" ++ o.name ++ "=" ++ "", o.text]

/-- The forms in which the help text shows a flag. -/
def IsDocumented (o : Occurrence) : Prop := o.name = o.option.flagName ∧ o.form ≠ .behind

def scanned (o : Occurrence) : Option String :=
  if o.name = o.option.flagName then some (if o.form = .behind then "" else o.text) else none

/-- The path that the command uses: the text, or what is left of a numeral. -/
def path (o : Occurrence) : String :=
  match Flags.valueOf o.text with
  | .number x => o.scanned.getD x.text
  | _ => o.text

theorem mem_names (o : Occurrence) : o.name ∈ [o.option.flagName, o.option.key] := by
  rcases o.spelled with h | h <;> simp [h]

theorem isPlainName (o : Occurrence) : IsPlainName o.name :=
  isPlainName_paths o.option o.isPath o.name o.mem_names

theorem documented (o : Occurrence) : o.option ∈ documented :=
  mem_documented_of_paths o.option o.isPath

theorem plain_of_ne_joined (h : o.form ≠ .joined) : startsWithDash o.text = false := by
  have htaken := o.taken
  rwa [if_neg h] at htaken

theorem startsWithDash_head (o : Occurrence) :
    ∀ next ∈ (o.words ++ rest).head?, startsWithDash next = true := by
  unfold words
  intro next hnext
  split at hnext <;> obtain rfl := Option.some_inj.mp hnext <;> simp [startsWithDash]

theorem items_words (o : Occurrence) :
    items (o.words ++ rest) = .value o.name o.text :: items rest := by
  unfold words
  split
  next hform => exact items_taken (ofString_name o.isPlainName) (plain_of_ne_joined (by simp [hform]))
  next hform =>
    have htaken := o.taken
    rw [if_pos hform] at htaken
    have hword := ofString_assigned o.isPlainName o.text
    rw [if_neg htaken] at hword
    exact items_assigned hword
  next hform =>
    exact items_taken (ofString_assigned o.isPlainName "") (plain_of_ne_joined (by simp [hform]))

theorem lastFlagText_words (o : Occurrence) (hrest : lastFlagText o.option.flag rest = none) :
    lastFlagText o.option.flag (o.words ++ rest) = o.scanned := by
  unfold words
  split
  next hform =>
    have hplain : startsWithDash o.text = false := plain_of_ne_joined (by simp [hform])
    have hhead : lastFlagText o.option.flag (("--" ++ o.name) :: o.text :: rest) = _ :=
      lastFlagText_name o.isPlainName
    rw [lastFlagText_word hplain, hrest, Option.none_or] at hhead
    simpa [scanned, hform] using hhead
  next hform =>
    have hhead : lastFlagText o.option.flag (("--" ++ o.name ++ "=" ++ o.text) :: rest) = _ :=
      lastFlagText_assigned o.documented o.isPlainName o.text
    rw [hrest, Option.none_or] at hhead
    simpa [scanned, hform] using hhead
  next hform =>
    have hplain : startsWithDash o.text = false := plain_of_ne_joined (by simp [hform])
    have hhead : lastFlagText o.option.flag (("--" ++ o.name ++ "=" ++ "") :: o.text :: rest) = _ :=
      lastFlagText_assigned o.documented o.isPlainName ""
    rw [lastFlagText_word hplain, hrest, Option.none_or] at hhead
    simpa [scanned, hform] using hhead

end Occurrence

/-- A command line, up to a lone `--`, on which an option is given a path by one occurrence of a
flag and by nothing else. -/
structure Sole (o : Occurrence) (args before after : List String) : Prop where
  words : args.takeWhile (· ≠ "--") = before ++ (o.words ++ after)
  others : ∀ item ∈ items before ++ items after, item.name?.map optionName ≠ some o.option.key

namespace Sole

variable {o : Occurrence} {args before after : List String} (h : Sole o args before after)
include h

theorem items_eq : items (args.takeWhile (· ≠ "--")) =
    items before ++ .value o.name o.text :: items after := by
  rw [h.words, items_append o.startsWithDash_head, o.items_words]

theorem optionName_ne {item : Item} {name : String} (hitem : item ∈ items before ++ items after)
    (hname : item.name? = some name) : optionName name ≠ o.option.key := by
  have hother := h.others item hitem
  rw [hname] at hother
  exact fun hkey => hother (congrArg some hkey)

theorem name_ne {item : Item} (hitem : item ∈ items before ++ items after) :
    item.name? ≠ some o.name := fun hname =>
  h.optionName_ne hitem hname (isFlagOf_paths o.option o.isPath o.name o.mem_names).option

theorem valuesFor_eq :
    valuesFor o.name (items (args.takeWhile (· ≠ "--"))) = [Flags.valueOf o.text] := by
  have hbefore : valuesFor o.name (items before) = [] :=
    valuesFor_eq_nil fun item hitem => h.name_ne (List.mem_append_left _ hitem)
  have hafter : valuesFor o.name (items after) = [] :=
    valuesFor_eq_nil fun item hitem => h.name_ne (List.mem_append_right _ hitem)
  have hown : valuesFor o.name [.value o.name o.text] = [Flags.valueOf o.text] := by
    simp [valuesFor, Item.valueFor?]
  rw [h.items_eq, ← List.singleton_append, valuesFor_append, valuesFor_append, hbefore, hown, hafter]
  rfl

theorem givesOnly : GivesOnly o.name o.option.key (items (args.takeWhile (· ≠ "--"))) := by
  have hitem : ∀ item ∈ items (args.takeWhile (· ≠ "--")),
      item = .value o.name o.text ∨ item ∈ items before ++ items after := by
    intro item hitem
    rw [h.items_eq] at hitem
    rcases List.mem_append.mp hitem with hitem | hitem
    · exact Or.inr (List.mem_append_left _ hitem)
    · exact (List.mem_cons.mp hitem).imp_right (List.mem_append_right _)
  constructor
  · intro item hmem name hname hkey
    rcases hitem item hmem with rfl | hother
    · exact (Option.some_inj.mp hname).symm
    · exact absurd hkey (h.optionName_ne hother hname)
  · intro hoff
    rcases hitem _ hoff with he | hother
    · cases he
    · exact h.name_ne hother rfl

theorem flagName_not_mem_names {words : List String} (hwords : words = before ∨ words = after)
    {arg : String} (harg : arg ∈ words) : o.option.flagName ∉ (Word.ofString arg).names := by
  intro hname
  obtain ⟨item, hitem, hflag⟩ := exists_mem_items harg hname
  have hmem : item ∈ items before ++ items after := by
    rcases hwords with rfl | rfl
    · exact List.mem_append_left _ hitem
    · exact List.mem_append_right _ hitem
  exact h.optionName_ne hmem hflag (optionName_flagName _ o.documented)

/-- No other word is taken for the flag by the scan. -/
theorem lastFlagText_append {words tail : List String} (hwords : words = before ∨ words = after) :
    lastFlagText o.option.flag (words ++ tail) = lastFlagText o.option.flag tail := by
  apply CommandLine.lastFlagText_append
  intro arg harg
  have hnot := h.flagName_not_mem_names hwords harg
  refine ⟨?_, ?_, ?_⟩
  · have hmem : arg ∈ args.takeWhile (· ≠ "--") := by
      rw [h.words]
      rcases hwords with rfl | rfl
      · exact List.mem_append_left _ harg
      · exact List.mem_append_right _ (List.mem_append_right _ harg)
    simpa using List.mem_takeWhile_imp hmem
  · rintro rfl
    exact hnot (mem_names_of_flag o.documented (Or.inl rfl))
  · exact fun hequals => hnot (mem_names_of_flag o.documented (Or.inr hequals))

theorem lastFlagText_eq : lastFlagText o.option.flag args = o.scanned := by
  -- The scan goes no further than a lone `--`.
  have htail : lastFlagText o.option.flag (args.dropWhile (· ≠ "--")) = none := by
    cases hrest : args.dropWhile (· ≠ "--") with
    | nil => rfl
    | cons dashes rest =>
      rw [eq_of_dropWhile_ne hrest]
      rfl
  have hsplit : args.takeWhile (· ≠ "--") ++ args.dropWhile (· ≠ "--") = args :=
    List.takeWhile_append_dropWhile
  rw [← hsplit, h.words, List.append_assoc, List.append_assoc, h.lastFlagText_append (Or.inl rfl)]
  apply o.lastFlagText_words
  rw [h.lastFlagText_append (Or.inr rfl), htail]

end Sole

namespace Occurrence

variable {o : Occurrence}

theorem IsDocumented.scanned (h : o.IsDocumented) : o.scanned = some o.text := by
  rw [Occurrence.scanned, if_pos h.1, if_neg h.2]

/-- Nothing is lost of a numeral in a documented form, nor of any other text. -/
theorem path_eq_text (h : o.IsDocumented ∨ Flags.valueOf o.text = .text o.text) :
    o.path = o.text := by
  unfold path
  split
  next x hx =>
    rcases h with hdocumented | htext
    · rw [hdocumented.scanned]
      rfl
    · rw [htext] at hx
      cases hx
  next => rfl

end Occurrence

end AgentPrompts.CommandLine
