import AgentPrompts.Proofs.CommandLine.Mention

/-! # Names on a command line

Every item that is read from the words of a command line is a plain word or has its name from
one of the words, and every name in a word is the name of an item. A name with more than one
character is written behind two dashes, alone or in front of an equals sign, or it is
switched off.
-/

namespace AgentPrompts.CommandLine

namespace Word

def names : Word → List String
  | plain => []
  | off name => [name]
  | flag names _ => names

/-- A word and an item that it can be read into, by itself or with the next word. -/
inductive Gives : Word → Item → Prop where
  | off (name : String) : Gives (off name) (.off name)
  | on {name : String} {names : List String} {text? : Option String} (h : name ∈ names) :
      Gives (flag names text?) (.on name)
  | value {name : String} {names : List String} {text? : Option String} (h : name ∈ names)
      (text : String) : Gives (flag names text?) (.value name text)

theorem Gives.mem_names {word : Word} {item : Item} {name : String} (h : word.Gives item)
    (hname : item.name? = some name) : name ∈ word.names := by
  cases h with
  | off name' =>
    obtain rfl := Option.some_inj.mp hname
    exact List.mem_singleton_self _
  | on h =>
    obtain rfl := Option.some_inj.mp hname
    exact h
  | value h text =>
    obtain rfl := Option.some_inj.mp hname
    exact h

end Word

section Items

variable {name arg text next : String} {names : List String} {text? : Option String} {item : Item}
  {words before rest : List String}

theorem gives_of_mem_giveLast (h : item ∈ giveLast names text) :
    (Word.flag names text?).Gives item := by
  unfold giveLast at h
  split at h
  next => cases h
  next last others hnames =>
    have hreverse : names = others.reverse ++ [last] := by
      rw [← List.reverse_reverse names, hnames, List.reverse_cons]
    subst hreverse
    rcases List.mem_append.mp h with h | h
    · obtain ⟨name, hname, rfl⟩ := List.mem_map.mp h
      exact .on (List.mem_append_left _ hname)
    · obtain rfl := List.mem_singleton.mp h
      exact .value (List.mem_append_right _ (List.mem_singleton_self _)) text

theorem exists_mem_giveLast (h : name ∈ names) (text : String) :
    ∃ item ∈ giveLast names text, item.name? = some name := by
  unfold giveLast
  split
  next hnames =>
    rw [List.reverse_eq_nil_iff] at hnames
    rw [hnames] at h
    cases h
  next last others hnames =>
    have hmem : name ∈ last :: others := hnames ▸ List.mem_reverse.mpr h
    rcases List.mem_cons.mp hmem with rfl | hmem
    · exact ⟨.value name text, List.mem_append_right _ (List.mem_singleton_self _), rfl⟩
    · refine ⟨.on name, List.mem_append_left _ ?_, rfl⟩
      exact List.mem_map_of_mem (List.mem_reverse.mpr hmem)

theorem namesForNext_eq_some_iff : namesForNext arg next = some names ↔
    Word.ofString arg = .flag names none ∧ startsWithDash next = false := by
  unfold namesForNext
  split
  next names' h =>
    rw [h]
    cases startsWithDash next <;> simp
  next h =>
    constructor
    · rintro ⟨⟩
    · rintro ⟨h', -⟩
      exact absurd h' (h names)

theorem gives_of_mem_itemsOf (h : item ∈ itemsOf arg) :
    item = .word arg ∨ (Word.ofString arg).Gives item := by
  unfold itemsOf at h
  split at h
  next => exact Or.inl (List.mem_singleton.mp h)
  next name hword =>
    obtain rfl := List.mem_singleton.mp h
    exact Or.inr (hword ▸ .off name)
  next names text hword => exact Or.inr (hword ▸ gives_of_mem_giveLast h)
  next names hword =>
    obtain ⟨name, hname, rfl⟩ := List.mem_map.mp h
    exact Or.inr (hword ▸ .on hname)

theorem exists_mem_itemsOf (h : name ∈ (Word.ofString arg).names) :
    ∃ item ∈ itemsOf arg, item.name? = some name := by
  unfold itemsOf
  split
  next hword =>
    rw [hword] at h
    cases h
  next name' hword =>
    rw [hword] at h
    obtain rfl := List.mem_singleton.mp h
    exact ⟨.off name, List.mem_singleton_self _, rfl⟩
  next names text hword =>
    rw [hword] at h
    exact exists_mem_giveLast h text
  next names hword =>
    rw [hword] at h
    exact ⟨.on name, List.mem_map_of_mem h, rfl⟩

theorem gives_of_mem_items (h : item ∈ items words) :
    (∃ text, item = .word text) ∨ ∃ arg ∈ words, (Word.ofString arg).Gives item := by
  have hfirst {arg : String} {words : List String} (h : item ∈ itemsOf arg) :
      (∃ text, item = .word text) ∨ ∃ arg' ∈ arg :: words, (Word.ofString arg').Gives item := by
    rcases gives_of_mem_itemsOf h with rfl | h
    · exact Or.inl ⟨arg, rfl⟩
    · exact Or.inr ⟨arg, List.mem_cons_self, h⟩
  fun_induction items words with
  | case1 => cases h
  | case2 arg => exact hfirst h
  | case3 arg next rest names hnext ih =>
    rcases List.mem_append.mp h with h | h
    · have hword := (namesForNext_eq_some_iff.mp hnext).1
      exact Or.inr ⟨arg, List.mem_cons_self, hword ▸ gives_of_mem_giveLast h⟩
    · refine (ih h).imp_right ?_
      rintro ⟨arg', harg, hgives⟩
      exact ⟨arg', List.mem_cons_of_mem _ (List.mem_cons_of_mem _ harg), hgives⟩
  | case4 arg next rest hnext ih =>
    rcases List.mem_append.mp h with h | h
    · exact hfirst h
    · refine (ih h).imp_right ?_
      rintro ⟨arg', harg, hgives⟩
      exact ⟨arg', List.mem_cons_of_mem _ harg, hgives⟩

theorem exists_word_of_mem_items (h : item ∈ items words) (hname : item.name? = some name) :
    ∃ arg ∈ words, name ∈ (Word.ofString arg).names := by
  rcases gives_of_mem_items h with ⟨text, rfl⟩ | ⟨arg, harg, hgives⟩
  · cases hname
  · exact ⟨arg, harg, hgives.mem_names hname⟩

theorem exists_word_of_off_mem_items (h : .off name ∈ items words) :
    ∃ arg ∈ words, Word.ofString arg = .off name := by
  rcases gives_of_mem_items h with ⟨text, he⟩ | ⟨arg, harg, hgives⟩
  · cases he
  · refine ⟨arg, harg, ?_⟩
    generalize Word.ofString arg = word at hgives
    cases hgives
    rfl

/-- No name in a word is lost: only words without names are taken as values. -/
theorem exists_mem_items (harg : arg ∈ words) (h : name ∈ (Word.ofString arg).names) :
    ∃ item ∈ items words, item.name? = some name := by
  fun_induction items words with
  | case1 => cases harg
  | case2 first =>
    obtain rfl := List.mem_singleton.mp harg
    exact exists_mem_itemsOf h
  | case3 first next rest names hnext ih =>
    obtain ⟨hword, hplain⟩ := namesForNext_eq_some_iff.mp hnext
    rcases List.mem_cons.mp harg with rfl | harg
    · rw [hword] at h
      obtain ⟨item, hitem, hname⟩ := exists_mem_giveLast h next
      exact ⟨item, List.mem_append_left _ hitem, hname⟩
    · rcases List.mem_cons.mp harg with rfl | harg
      · -- The word that is taken as a value begins with no dash, so it has no names.
        rw [ofString_plain hplain] at h
        cases h
      · obtain ⟨item, hitem, hname⟩ := ih harg
        exact ⟨item, List.mem_append_right _ hitem, hname⟩
  | case4 first next rest hnext ih =>
    rcases List.mem_cons.mp harg with rfl | harg
    · obtain ⟨item, hitem, hname⟩ := exists_mem_itemsOf h
      exact ⟨item, List.mem_append_left _ hitem, hname⟩
    · obtain ⟨item, hitem, hname⟩ := ih harg
      exact ⟨item, List.mem_append_right _ hitem, hname⟩

theorem items_append (h : ∀ next ∈ rest.head?, startsWithDash next = true) :
    items (before ++ rest) = items before ++ items rest := by
  fun_induction items before with
  | case1 => rfl
  | case2 arg =>
    refine items_cons fun next hnext => ?_
    rw [← Option.not_isSome_iff_eq_none]
    intro hsome
    obtain ⟨names, hnames⟩ := Option.isSome_iff_exists.mp hsome
    have hplain := (namesForNext_eq_some_iff.mp hnames).2
    rw [h next hnext] at hplain
    cases hplain
  | case3 arg next before names hnext ih =>
    rw [List.append_assoc, ← ih]
    exact items_pair hnext
  | case4 arg next before hnext ih =>
    rw [List.append_assoc, ← ih]
    refine items_cons fun next' hnext' => ?_
    obtain rfl : next = next' := Option.some_inj.mp hnext'
    exact hnext

end Items

section LongNames

variable {name arg : String}

theorem length_of_mem_letterNames {cs : List Char} (h : name ∈ letterNames cs) :
    name.toList.length = 1 := by
  obtain ⟨c, -, hname⟩ := List.mem_flatMap.mp h
  split at hname
  next =>
    obtain rfl := List.mem_singleton.mp hname
    simp
  next =>
    obtain rfl : name = "\uFFFD" := by simpa using hname
    rfl

theorem eq_of_dropWhile_ne {α : Type} [DecidableEq α] {a b : α} {as bs : List α}
    (h : as.dropWhile (· ≠ a) = b :: bs) : b = a := by
  have hne := List.head?_dropWhile_not (· ≠ a) as
  rw [h] at hne
  simpa using hne

theorem cutValue_cases (body : List Char) : body = (cutValue body).1 ∨
    ∃ text, body = (cutValue body).1 ++ '=' :: text := by
  cases body with
  | nil => exact Or.inl rfl
  | cons c cs =>
    have hsplit : cs.takeWhile (· ≠ '=') ++ cs.dropWhile (· ≠ '=') = cs :=
      List.takeWhile_append_dropWhile
    cases htext : cs.dropWhile (· ≠ '=') with
    | nil =>
      left
      rw [htext, List.append_nil] at hsplit
      exact congrArg (c :: ·) hsplit.symm
    | cons equals text =>
      right
      rw [htext, eq_of_dropWhile_ne htext] at hsplit
      exact ⟨text, congrArg (c :: ·) hsplit.symm⟩

theorem dashes_append (cs : List Char) : List.replicate (cs.takeWhile (· = '-')).length '-' ++
    cs.drop (cs.takeWhile (· = '-')).length = cs := by
  have hdashes : ∀ c ∈ cs.takeWhile (· = '-'), c = '-' := by
    intro c hc
    simpa using List.mem_takeWhile_imp hc
  have hsplit : cs.takeWhile (· = '-') ++ cs.dropWhile (· = '-') = cs :=
    List.takeWhile_append_dropWhile
  have hdrop : (cs.takeWhile (· = '-') ++ cs.dropWhile (· = '-')).drop
      (cs.takeWhile (· = '-')).length = cs.dropWhile (· = '-') := List.drop_left
  rw [hsplit] at hdrop
  rw [hdrop, ← List.eq_replicate_of_mem hdashes, hsplit]

/-- A name with more than one character stands behind two dashes, or it is switched off. -/
theorem word_of_mem_names (hlength : 1 < name.toList.length)
    (h : name ∈ (Word.ofString arg).names) : Word.ofString arg = .off name ∨
      arg = "--" ++ name ∨ ("--" ++ name ++ "=").toList <+: arg.toList := by
  have hsplit := dashes_append arg.toList
  unfold Word.ofString at h ⊢
  simp only at h ⊢
  split at h
  next => cases h
  next hdashes =>
  split at h
  next hoff =>
    obtain rfl := List.mem_singleton.mp h
    rw [if_neg hdashes, if_pos hoff]
    exact Or.inl rfl
  next =>
  right
  simp only [Word.names] at h
  split at h
  next htwo =>
    obtain rfl := List.mem_singleton.mp h
    rw [htwo] at hsplit ⊢
    rcases cutValue_cases (arg.toList.drop 2) with hbody | ⟨text, hbody⟩
    · left
      rw [← String.toList_inj, ← hsplit]
      simpa using hbody
    · right
      have htext := congrArg (List.replicate 2 '-' ++ ·) hbody
      refine ⟨text, Eq.trans ?_ (htext.symm.trans hsplit)⟩
      simp
  next =>
    -- Behind any other number of dashes each character is a name.
    rw [length_of_mem_letterNames h] at hlength
    exact absurd hlength (lt_irrefl 1)

end LongNames

end AgentPrompts.CommandLine
