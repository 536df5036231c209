import AgentPrompts.Proofs.CommandLine.Mention

/-! # Texts found again

The text that a mention gives to an option is found again among the words of the command
line, where the last mention counts. No other word of the command line is taken for it.
-/

namespace AgentPrompts.CommandLine

theorem mark_prefix_iff {α : Type} {a : α} {xs ys zs : List α} (hxs : a ∉ xs) (hys : a ∉ ys) :
    xs ++ [a] <+: ys ++ a :: zs ↔ xs = ys := by
  induction xs generalizing ys with
  | nil =>
    cases ys with
    | nil => simp
    | cons y ys =>
      simp only [List.nil_append, List.cons_append, List.cons_prefix_cons, reduceCtorEq, iff_false]
      rintro ⟨rfl, -⟩
      exact hys List.mem_cons_self
  | cons x xs ih =>
    cases ys with
    | nil =>
      simp only [List.nil_append, List.cons_append, List.cons_prefix_cons, reduceCtorEq, iff_false]
      rintro ⟨rfl, -⟩
      exact hxs List.mem_cons_self
    | cons y ys =>
      simp only [List.cons_append, List.cons_prefix_cons, List.cons.injEq]
      rw [ih (fun h => hxs (List.mem_cons_of_mem _ h)) (fun h => hys (List.mem_cons_of_mem _ h))]

namespace OptionUsage

theorem equals_not_mem_flag : ∀ o ∈ documented, '=' ∉ o.flag.toList := by
  decide

theorem startsWithDash_flag (o : OptionUsage) : startsWithDash o.flag = true := by
  simp [startsWithDash, flag]

end OptionUsage

section Scan

variable {flag arg text : String} {rest : List String}

theorem lastFlagText_cons (h : arg ≠ "--") : lastFlagText flag (arg :: rest) =
    (lastFlagText flag rest).or (if arg = flag then rest.head?
      else if flag.toList ++ ['='] <+: arg.toList then
        some (String.ofList (arg.toList.drop (flag.toList ++ ['=']).length))
      else none) := by
  simp [lastFlagText, h, List.isPrefixOf_iff_prefix]

theorem lastFlagText_pass (h : arg ≠ "--") (hflag : arg ≠ flag)
    (hequals : ¬ flag.toList ++ ['='] <+: arg.toList) :
    lastFlagText flag (arg :: rest) = lastFlagText flag rest := by
  rw [lastFlagText_cons h, if_neg hflag, if_neg hequals, Option.or_none]

theorem lastFlagText_append {words : List String} (h : ∀ arg ∈ words, arg ≠ "--" ∧ arg ≠ flag ∧
    ¬ flag.toList ++ ['='] <+: arg.toList) :
    lastFlagText flag (words ++ rest) = lastFlagText flag rest := by
  induction words with
  | nil => rfl
  | cons arg words ih =>
    obtain ⟨⟨hdashes, hflag, hequals⟩, hwords⟩ := List.forall_mem_cons.mp h
    rw [List.cons_append, lastFlagText_pass hdashes hflag hequals, ih hwords]

theorem lastFlagText_word {o : OptionUsage} (h : startsWithDash arg = false) :
    lastFlagText o.flag (arg :: rest) = lastFlagText o.flag rest := by
  have hhead : arg.toList.head? ≠ some '-' := by
    simpa [startsWithDash] using h
  apply lastFlagText_pass
  · rintro rfl
    exact hhead rfl
  · rintro rfl
    rw [o.startsWithDash_flag] at h
    cases h
  · rintro ⟨cs, hcs⟩
    rw [← hcs] at hhead
    exact hhead (by simp [OptionUsage.flag])

theorem flag_eq_iff {o : OptionUsage} {name : String} : "--" ++ name = o.flag ↔ name = o.flagName := by
  rw [OptionUsage.flag, ← String.toList_inj, ← String.toList_inj]
  simp

theorem name_ne_dashes {name : String} (hname : IsPlainName name) : "--" ++ name ≠ "--" := by
  obtain ⟨c, cs, hcs, -⟩ := hname.cases
  intro he
  have hlist := congrArg String.toList he
  simp [hcs] at hlist

theorem assigned_ne_dashes (name text : String) : "--" ++ name ++ "=" ++ text ≠ "--" := by
  intro he
  have hmem : '=' ∈ ("--" ++ name ++ "=" ++ text).toList := by simp
  rw [he] at hmem
  exact absurd hmem (by decide)

theorem lastFlagText_name {o : OptionUsage} {name : String} (hname : IsPlainName name) :
    lastFlagText o.flag (("--" ++ name) :: rest) =
      (lastFlagText o.flag rest).or (if name = o.flagName then rest.head? else none) := by
  have hequals : ¬ o.flag.toList ++ ['='] <+: ("--" ++ name).toList := by
    intro h
    have hmem : '=' ∈ ("--" ++ name).toList := h.subset (by simp)
    simp [hname.2] at hmem
  rw [lastFlagText_cons (name_ne_dashes hname), if_neg hequals]
  simp only [flag_eq_iff]

theorem lastFlagText_assigned {o : OptionUsage} {name : String} (ho : o ∈ OptionUsage.documented)
    (hname : IsPlainName name) (text : String) :
    lastFlagText o.flag (("--" ++ name ++ "=" ++ text) :: rest) =
      (lastFlagText o.flag rest).or (if name = o.flagName then some text else none) := by
  have hlist : ("--" ++ name ++ "=" ++ text).toList = ("--" ++ name).toList ++ '=' :: text.toList := by
    simp
  have hflag : "--" ++ name ++ "=" ++ text ≠ o.flag := by
    intro he
    have hmem : '=' ∈ ("--" ++ name ++ "=" ++ text).toList := by simp
    rw [he] at hmem
    exact OptionUsage.equals_not_mem_flag o ho hmem
  have hequals : '=' ∉ ("--" ++ name).toList := by simp [hname.2]
  rw [lastFlagText_cons (assigned_ne_dashes name text), if_neg hflag, hlist]
  simp only [mark_prefix_iff (OptionUsage.equals_not_mem_flag o ho) hequals, String.toList_inj]
  by_cases h : name = o.flagName
  · rw [if_pos h, if_pos (flag_eq_iff.mpr h).symm, flag_eq_iff.mpr h]
    simp
  · rw [if_neg h, if_neg fun he => h (flag_eq_iff.mp he.symm)]

end Scan

namespace Mention

open OptionUsage

variable {c : Command} {o : OptionUsage} {rest : List String}

def textFor? (o : OptionUsage) (m : Mention c) : Option String :=
  if m.option = o then m.text? else none

def lastText? (o : OptionUsage) (ms : List (Mention c)) : Option String :=
  (ms.filterMap (textFor? o)).getLast?

theorem dashes_not_mem_words (m : Mention c) : "--" ∉ m.words := by
  cases m with
  | spaced a text known takes plain =>
    have hflag : a.flag ≠ "--" := name_ne_dashes (isPlainName_flagName a (mem_documented known))
    have htext : text ≠ "--" := by
      rintro rfl
      cases plain
    simpa [words] using ⟨hflag.symm, htext.symm⟩
  | joined a text known takes given =>
    have hflag : a.flag ++ "=" ++ text ≠ "--" := assigned_ne_dashes a.flagName text
    simpa [words] using hflag.symm
  | switch a known noValue =>
    have hflag : a.flag ≠ "--" := name_ne_dashes (isPlainName_flagName a (mem_documented known))
    simpa [words] using hflag.symm

theorem dashes_not_mem_flatMap (ms : List (Mention c)) : "--" ∉ ms.flatMap words := by
  intro h
  obtain ⟨m, -, hm⟩ := List.mem_flatMap.mp h
  exact m.dashes_not_mem_words hm

/-- A mention gives its text to its own option and passes for any other. -/
theorem lastFlagText_words (m : Mention c) (ho : o ∈ documented) (hvalue : o.takesValue = true) :
    lastFlagText o.flag (m.words ++ rest) = (lastFlagText o.flag rest).or (m.textFor? o) := by
  cases m with
  | spaced a text known takes plain =>
    have hname := isPlainName_flagName a (mem_documented known)
    have hown := flagName_eq_iff (mem_documented known) ho
    change lastFlagText o.flag (("--" ++ a.flagName) :: text :: rest) =
      (lastFlagText o.flag rest).or (if a = o then some text else none)
    rw [lastFlagText_name hname, lastFlagText_word plain]
    simp only [hown, List.head?_cons]
  | joined a text known takes given =>
    have hname := isPlainName_flagName a (mem_documented known)
    have hown := flagName_eq_iff (mem_documented known) ho
    change lastFlagText o.flag (("--" ++ a.flagName ++ "=" ++ text) :: rest) =
      (lastFlagText o.flag rest).or (if a = o then some text else none)
    rw [lastFlagText_assigned ho hname]
    simp only [hown]
  | switch a known noValue =>
    have hname := isPlainName_flagName a (mem_documented known)
    have hown := flagName_eq_iff (mem_documented known) ho
    have hne : a ≠ o := by
      rintro rfl
      rw [hvalue] at noValue
      cases noValue
    change lastFlagText o.flag (("--" ++ a.flagName) :: rest) =
      (lastFlagText o.flag rest).or (if a = o then none else none)
    rw [lastFlagText_name hname, if_neg (mt hown.mp hne), if_neg hne]

theorem lastText?_cons (m : Mention c) (ms : List (Mention c)) :
    lastText? o (m :: ms) = (lastText? o ms).or (m.textFor? o) := by
  unfold lastText?
  cases h : m.textFor? o with
  | none => rw [List.filterMap_cons_none h, Option.or_none]
  | some text =>
    rw [List.filterMap_cons_some h, List.getLast?_cons]
    cases (ms.filterMap (textFor? o)).getLast? <;> rfl

theorem lastFlagText_flatMap (ms : List (Mention c)) (ho : o ∈ documented)
    (hvalue : o.takesValue = true) : lastFlagText o.flag (ms.flatMap words ++ rest) =
      (lastFlagText o.flag rest).or (lastText? o ms) := by
  induction ms with
  | nil => exact Option.or_none.symm
  | cons m ms ih =>
    rw [List.flatMap_cons, List.append_assoc, lastFlagText_words m ho hvalue, ih, Option.or_assoc,
      lastText?_cons]

theorem lastText?_append (ms ms' : List (Mention c)) :
    lastText? o (ms ++ ms') = (lastText? o ms').or (lastText? o ms) := by
  unfold lastText?
  rw [List.filterMap_append, List.getLast?_append]

end Mention

end AgentPrompts.CommandLine
