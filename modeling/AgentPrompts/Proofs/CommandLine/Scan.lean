import AgentPrompts.Proofs.CommandLine.Occurrence

/-! # How far the scan for a text goes

The scan for the text of a flag ends in front of a lone `--`, except that a flag right before
it takes the `--` itself. What the scan finds stands at the last place of the flag. The items of
the command line pair the flag with the same text there, unless the text is a word that begins
with a dash or nothing stands behind the equals sign.
-/

namespace AgentPrompts.CommandLine

open OptionUsage

section Dashes

variable {flag : String} {front : List String}

/-- Of a lone `--` and all behind it the scan sees the `--` alone, and that only behind the flag. -/
theorem lastFlagText_dashes (hfront : "--" ∉ front) (rest : List String) :
    lastFlagText flag (front ++ "--" :: rest) =
      if front.getLast? = some flag then some "--" else lastFlagText flag front := by
  induction front with
  | nil => rfl
  | cons arg front ih =>
    obtain ⟨harg, hfront⟩ := not_or.mp (mt List.mem_cons.mpr hfront)
    rw [List.cons_append, lastFlagText_cons (Ne.symm harg), lastFlagText_cons (Ne.symm harg),
      ih hfront]
    cases front with
    | nil =>
      by_cases hflag : arg = flag <;> simp [hflag, lastFlagText]
    | cons next front =>
      rw [List.getLast?_cons_cons, List.cons_append, List.head?_cons, List.head?_cons]
      split
      next => rfl
      next => rfl

end Dashes

/-- The last place of a flag, with the text that the scan finds there. The Boolean says whether
the items of the command line pair that text with the flag. -/
inductive LastPlace (flag text : String) : List String → Bool → Prop where
  | spaced {front after : List String} (before : "--" ∉ front)
      (last : lastFlagText flag (text :: after) = none) :
      LastPlace flag text (front ++ flag :: text :: after) (!startsWithDash text)
  | joined {front after : List String} (before : "--" ∉ front)
      (last : lastFlagText flag after = none) :
      LastPlace flag text (front ++ (flag ++ "=" ++ text) :: after) (text ≠ "")

section Places

variable {flag text arg : String} {args front rest : List String} {taken : Bool}

theorem LastPlace.cons (h : LastPlace flag text args taken) (harg : arg ≠ "--") :
    LastPlace flag text (arg :: args) taken := by
  have hbefore {front : List String} (hfront : "--" ∉ front) : "--" ∉ arg :: front :=
    fun hmem => (List.mem_cons.mp hmem).elim (fun he => harg he.symm) hfront
  cases h with
  | spaced before last => exact .spaced (hbefore before) last
  | joined before last => exact .joined (hbefore before) last

theorem exists_lastPlace (h : lastFlagText flag args = some text) :
    ∃ taken, LastPlace flag text args taken := by
  induction args with
  | nil => cases h
  | cons arg rest ih =>
    have harg : arg ≠ "--" := by
      rintro rfl
      cases h
    rw [lastFlagText_cons harg] at h
    cases hrest : lastFlagText flag rest with
    | some text' =>
      rw [hrest, Option.some_or] at h
      obtain ⟨taken, hplace⟩ := ih (hrest.trans h)
      exact ⟨taken, hplace.cons harg⟩
    | none =>
      rw [hrest, Option.none_or] at h
      split at h
      next hflag =>
        subst hflag
        obtain ⟨after, rfl⟩ := List.head?_eq_some_iff.mp h
        have hplace : LastPlace arg text ([] ++ arg :: text :: after) _ :=
          .spaced List.not_mem_nil hrest
        exact ⟨_, hplace⟩
      next hflag =>
        split at h
        next hequals =>
          obtain ⟨cs, hcs⟩ := hequals
          obtain rfl : flag ++ "=" ++ text = arg := by
            rw [← hcs, List.drop_left] at h
            rw [← String.toList_inj, ← hcs, ← Option.some_inj.mp h]
            simp
          have hplace : LastPlace flag text ([] ++ (flag ++ "=" ++ text) :: rest) _ :=
            .joined List.not_mem_nil hrest
          exact ⟨_, hplace⟩
        next => cases h

theorem exists_lastFlagText_cons (harg : arg ≠ "--")
    (h : arg = flag ∧ rest ≠ [] ∨ arg ≠ flag ∧ flag.toList ++ ['='] <+: arg.toList) :
    ∃ found, lastFlagText flag (arg :: rest) = some found := by
  rw [lastFlagText_cons harg]
  cases lastFlagText flag rest with
  | some found => exact ⟨found, rfl⟩
  | none =>
    rcases h with ⟨rfl, hrest⟩ | ⟨hne, hequals⟩
    · obtain ⟨next, after, rfl⟩ := List.exists_cons_of_ne_nil hrest
      exact ⟨next, if_pos rfl⟩
    · exact ⟨_, (if_neg hne).trans (if_pos hequals)⟩

theorem lastFlagText_append_of_some (hfront : "--" ∉ front)
    (h : lastFlagText flag rest = some text) : lastFlagText flag (front ++ rest) = some text := by
  induction front with
  | nil => exact h
  | cons arg front ih =>
    obtain ⟨harg, hfront⟩ := not_or.mp (mt List.mem_cons.mpr hfront)
    rw [List.cons_append, lastFlagText_cons (Ne.symm harg), ih hfront, Option.some_or]

end Places

/-- The items of a command line pair the flag of an option with a text. This is not yet what an
option keeps: a flag that is read as a switch gives its text back to the words. -/
def Takes (o : OptionUsage) (args : List String) (text : String) : Prop :=
  .value o.flagName text ∈ items (args.takeWhile (· ≠ "--"))

section Takes

variable {o : OptionUsage} {args : List String} {text : String} {parsed : Value}

theorem takeWhile_append_cons {front : List String} (hfront : "--" ∉ front) {arg : String}
    (harg : arg ≠ "--") (rest : List String) :
    (front ++ arg :: rest).takeWhile (· ≠ "--") =
      front ++ arg :: rest.takeWhile (· ≠ "--") := by
  have hall : ∀ a ∈ front, decide (a ≠ "--") = true := by
    rintro a ha
    apply decide_eq_true
    rintro rfl
    exact hfront ha
  rw [List.takeWhile_append_of_pos hall, List.takeWhile_cons_of_pos (by simpa using harg)]

/-- At a place where the items have a text for the flag it is the text of the scan. -/
theorem takes_of_lastPlace (ho : o ∈ documented) (h : LastPlace o.flag text args true) :
    Takes o args text := by
  have hname := isPlainName_flagName o ho
  have hdash : startsWithDash o.flag = true := o.startsWithDash_flag
  generalize htaken : true = taken at h
  cases h with
  | @spaced front after before last =>
    have hplain : startsWithDash text = false := by simpa using htaken.symm
    have htext : text ≠ "--" := by
      rintro rfl
      cases hplain
    have hflag : o.flag ≠ "--" := name_ne_dashes hname
    have hword : Word.ofString o.flag = .flag [o.flagName] none := ofString_name hname
    rw [Takes, takeWhile_append_cons before hflag,
      List.takeWhile_cons_of_pos (by simpa using htext),
      items_append (by rintro next ⟨⟩; exact hdash)]
    refine List.mem_append_right _ ?_
    rw [items_taken hword hplain]
    exact List.mem_cons_self
  | @joined front after before last =>
    have hgiven : text ≠ "" := by simpa using htaken.symm
    have hassigned : o.flag ++ "=" ++ text ≠ "--" := assigned_ne_dashes o.flagName text
    have hword : Word.ofString (o.flag ++ "=" ++ text) = .flag [o.flagName] _ :=
      ofString_assigned hname text
    rw [if_neg hgiven] at hword
    have hhead : startsWithDash (o.flag ++ "=" ++ text) = true := by
      simp [startsWithDash, flag]
    rw [Takes, takeWhile_append_cons before hassigned,
      items_append (by rintro next ⟨⟩; exact hhead)]
    refine List.mem_append_right _ ?_
    rw [items_assigned hword]
    exact List.mem_cons_self

theorem length_flagName : ∀ o ∈ documented, 1 < o.flagName.toList.length := by
  decide

theorem exists_of_value_mem_itemsOf {arg name : String} (h : .value name text ∈ itemsOf arg) :
    ∃ names given, Word.ofString arg = .flag names (some given) ∧ name ∈ names := by
  unfold itemsOf at h
  split at h
  next => cases List.mem_singleton.mp h
  next => cases List.mem_singleton.mp h
  next names given hword =>
    have hgives : (Word.flag names (some given)).Gives (.value name text) :=
      gives_of_mem_giveLast h
    exact ⟨names, given, hword, hgives.mem_names rfl⟩
  next =>
    obtain ⟨_, -, he⟩ := List.mem_map.mp h
    cases he

theorem eq_flag_or_assigns (ho : o ∈ documented) {arg : String} {names : List String}
    {given? : Option String} (hword : Word.ofString arg = .flag names given?)
    (hname : o.flagName ∈ names) :
    arg = o.flag ∨ arg ≠ o.flag ∧ o.flag.toList ++ ['='] <+: arg.toList := by
  have hnames : o.flagName ∈ (Word.ofString arg).names := by rwa [hword]
  by_cases harg : arg = o.flag
  · exact Or.inl harg
  · rcases word_of_mem_names (length_flagName o ho) hnames with hoff | hflag | hequals
    · rw [hword] at hoff
      cases hoff
    · exact absurd hflag harg
    · refine Or.inr ⟨harg, ?_⟩
      simpa [flag] using hequals

theorem exists_lastFlagText_of_mem_items (ho : o ∈ documented) {words : List String}
    (hwords : "--" ∉ words) (h : .value o.flagName text ∈ items words) :
    ∃ found, lastFlagText o.flag words = some found := by
  have hassigned {arg : String} {rest : List String} (harg : arg ≠ "--")
      (hmem : .value o.flagName text ∈ itemsOf arg) :
      ∃ found, lastFlagText o.flag (arg :: rest) = some found := by
    obtain ⟨names, given, hword, hname⟩ := exists_of_value_mem_itemsOf hmem
    apply exists_lastFlagText_cons harg
    rcases eq_flag_or_assigns ho hword hname with rfl | hequals
    · rw [flag, ofString_name (isPlainName_flagName o ho)] at hword
      cases hword
    · exact Or.inr hequals
  fun_induction items words with
  | case1 => cases h
  | case2 arg => exact hassigned (fun he => hwords (he ▸ List.mem_cons_self)) h
  | case3 arg next rest names hnext ih =>
    obtain ⟨harg, hrest⟩ := not_or.mp (mt List.mem_cons.mpr hwords)
    obtain ⟨hnext', hrest'⟩ := not_or.mp (mt List.mem_cons.mpr hrest)
    rcases List.mem_append.mp h with h | h
    · have hword := (namesForNext_eq_some_iff.mp hnext).1
      have hgives : (Word.flag names none).Gives (.value o.flagName text) :=
        gives_of_mem_giveLast h
      apply exists_lastFlagText_cons (Ne.symm harg)
      refine (eq_flag_or_assigns ho hword (hgives.mem_names rfl)).imp_left ?_
      exact fun hflag => ⟨hflag, List.cons_ne_nil _ _⟩
    · obtain ⟨found, hfound⟩ := ih hrest' h
      have hfront : "--" ∉ [arg, next] := by simp [harg, hnext']
      exact ⟨found, lastFlagText_append_of_some hfront hfound⟩
  | case4 arg next rest hnext ih =>
    obtain ⟨harg, hrest⟩ := not_or.mp (mt List.mem_cons.mpr hwords)
    rcases List.mem_append.mp h with h | h
    · exact hassigned (Ne.symm harg) h
    · obtain ⟨found, hfound⟩ := ih hrest h
      have hfront : "--" ∉ [arg] := by simp [harg]
      exact ⟨found, lastFlagText_append_of_some hfront hfound⟩

theorem exists_lastFlagText_of_takes (ho : o ∈ documented) (h : Takes o args text) :
    ∃ found, lastFlagText o.flag args = some found := by
  have hfront : "--" ∉ args.takeWhile (· ≠ "--") := fun hmem => by
    simpa using List.mem_takeWhile_imp hmem
  obtain ⟨found, hfound⟩ := exists_lastFlagText_of_mem_items ho hfront h
  have hsplit : args.takeWhile (· ≠ "--") ++ args.dropWhile (· ≠ "--") = args :=
    List.takeWhile_append_dropWhile
  rw [← hsplit]
  cases hrest : args.dropWhile (· ≠ "--") with
  | nil => exact ⟨found, by rwa [List.append_nil]⟩
  | cons dashes rest =>
    rw [eq_of_dropWhile_ne hrest, lastFlagText_dashes hfront]
    split
    next => exact ⟨_, rfl⟩
    next => exact ⟨found, hfound⟩

structure LookedUp (parsed : Value) : Prop where
  given : parsed ≠ .absent
  not_text : ∀ s, parsed ≠ .text s

theorem lookedUp_of_isList {d : Datum} (h : d.isList = true) (additions : Additions) :
    LookedUp (d.toValue additions) := by
  cases d with
  | shared object => exact ⟨nofun, nofun⟩
  | made length? members parent => exact ⟨nofun, nofun⟩
  | _ => cases h

theorem pathOption_of_lookedUp (h : LookedUp parsed) {flag : String}
    (hfound : lastFlagText flag args = some text) :
    pathOption parsed args flag = .ok (.text text) := by
  cases parsed with
  | absent => exact absurd rfl h.given
  | text s => exact absurd rfl (h.not_text s)
  | _ => simp only [pathOption, hfound]

end Takes

/-- The scan stops in front of a lone `--`, or takes the `--` itself for the word behind the flag.
The text that it finds for a path is one that the items pair with the flag, unless they pair it
with none at the last place of the flag; where the scan finds none, the items have none for it. -/
theorem scan_of_flags (args : List String) :
    (∀ (flag : String) (front rest : List String), args = front ++ "--" :: rest → "--" ∉ front →
      lastFlagText flag args =
        if front.getLast? = some flag then some "--" else lastFlagText flag front) ∧
    ∀ o ∈ paths, ∀ parsed : Value, LookedUp parsed →
      (∃ text, pathOption parsed args o.flag = .ok (.text text) ∧
        (Takes o args text ∨ LastPlace o.flag text args false)) ∨
      lastFlagText o.flag args = none ∧ ∀ text, ¬ Takes o args text := by
  constructor
  · rintro flag front rest rfl hfront
    exact lastFlagText_dashes hfront rest
  intro o ho parsed hparsed
  have hdocumented := mem_documented_of_paths o ho
  cases hfound : lastFlagText o.flag args with
  | some text =>
    obtain ⟨taken, hplace⟩ := exists_lastPlace hfound
    refine Or.inl ⟨text, pathOption_of_lookedUp hparsed hfound, ?_⟩
    cases taken with
    | true => exact Or.inl (takes_of_lastPlace hdocumented hplace)
    | false => exact Or.inr hplace
  | none =>
    refine Or.inr ⟨rfl, fun text htakes => ?_⟩
    obtain ⟨found, hsome⟩ := exists_lastFlagText_of_takes hdocumented htakes
    rw [hfound] at hsome
    cases hsome

/-- A flag that is repeated, in front of a lone `--` and behind it. -/
theorem scan_of_flags_repeated :
    let front := ["--out-dir", "01", "--json", "--out-dir=1e3", "--quiet"]
    let args := front ++ "--" :: ["--out-dir", "9"]
    let parsed := Value.list [.number (.ofNat 1), .number (.ofNat 1000)]
    ("--" ∉ front ∧ lastFlagText "--out-dir" args = some "1e3") ∧
    LookedUp parsed ∧ ∃ text, pathOption parsed args "--out-dir" = .ok (.text text) ∧
      text = "1e3" ∧ Takes .outDir args text := by
  intro front args parsed
  have hfront : "--" ∉ front := by decide
  have hparsed : LookedUp parsed := ⟨by simp [parsed], by simp [parsed]⟩
  obtain ⟨hdashes, hpaths⟩ := scan_of_flags args
  have hscan : lastFlagText "--out-dir" args = some "1e3" := by
    rw [hdashes "--out-dir" front _ rfl hfront]
    decide
  refine ⟨⟨hfront, hscan⟩, hparsed, ?_⟩
  rcases hpaths .outDir (by decide) parsed hparsed with ⟨text, hpath, -⟩ | ⟨hnone, -⟩
  · have hfound := pathOption_of_lookedUp hparsed hscan
    obtain rfl : "1e3" = text := by simpa using hfound.symm.trans hpath
    refine ⟨"1e3", hpath, rfl, ?_⟩
    unfold Takes
    decide
  · cases hscan.symm.trans hnone

/-- Right behind a flag the scan takes a lone `--`, and any flag that the reading leaves alone. -/
theorem not_scan_stops :
    (¬ ∀ (flag : String) (front rest : List String), flag ≠ "--" → "--" ∉ front →
      lastFlagText flag (front ++ "--" :: rest) = lastFlagText flag front) ∧
    ¬ ∀ (o : OptionUsage) (args : List String) (i : Invocation) (text : String), o ∈ paths →
      Invocation.ofArgs args = .ok i → i.usageError? = none → LookedUp (i.value o.key) →
      pathOption (i.value o.key) args o.flag = .ok (.text text) →
      ∃ name, optionName name = o.key ∧ .value name text ∈ items (args.takeWhile (· ≠ "--")) := by
  constructor
  · intro hall
    have hstop := hall "--out-dir" ["--out-dir"] [] (by decide) (by decide)
    exact absurd hstop (by decide)
  · intro hall
    let args := ["--count", "1", "--template", "t", "--out-dir", "1", "--out-dir", "--quiet"]
    obtain ⟨i, hi, hchecks⟩ : ∃ i, Invocation.ofArgs args = .ok i ∧
        (i.usageError?, (i.option "outDir").isList) = (none, true) :=
      exists_of_toOption_map (by decide +kernel)
    obtain ⟨husage, hlist⟩ := Prod.mk.inj hchecks
    have hparsed : LookedUp (i.value "outDir") := lookedUp_of_isList hlist _
    have hscan : lastFlagText "--out-dir" args = some "--quiet" := by decide
    obtain ⟨name, -, hname⟩ := hall .outDir args i "--quiet" (by decide) hi husage hparsed
      (pathOption_of_lookedUp hparsed hscan)
    have hitems : items (args.takeWhile (· ≠ "--")) = [.value "count" "1", .value "template" "t",
        .value "out-dir" "1", .on "out-dir", .on "quiet"] := by decide
    rw [hitems] at hname
    simp at hname

end AgentPrompts.CommandLine
