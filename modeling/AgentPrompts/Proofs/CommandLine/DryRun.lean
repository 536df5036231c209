import AgentPrompts.Proofs.CommandLine.Effects
import AgentPrompts.Proofs.CommandLine.Held
import AgentPrompts.Proofs.CommandLine.Lookup
import AgentPrompts.Proofs.CommandLine.Undotted

/-! # Dry runs on the command line

A command line that asks for a dry run and adds nothing to the shared objects leaves the disk as
it was, whatever else it says, with one exception: a single mention of the option takes the next
word as its value, and a word that reads as zero switches the option off again.
-/

namespace AgentPrompts.CommandLine

/-- A command line with the flag of the dry run in front of a lone `--`. The flag is neither
switched off nor given a value behind an equals sign, and it is not spelled in camel case. -/
structure AsksDryRun (args : List String) : Prop where
  asked : "--dry-run" ∈ args.takeWhile (· ≠ "--")
  not_off : ∀ arg ∈ args.takeWhile (· ≠ "--"), Word.ofString arg ≠ .off "dry-run" ∧
    Word.ofString arg ≠ .off "dryRun"
  not_assigned : ∀ arg ∈ args.takeWhile (· ≠ "--"), ¬ "--dry-run=".toList <+: arg.toList
  not_camel : ∀ arg ∈ args.takeWhile (· ≠ "--"), arg ≠ "--dryRun" ∧
    ¬ "--dryRun=".toList <+: arg.toList

def plainHead? : List String → Option String
  | [] => none
  | next :: _ => if startsWithDash next then none else some next

/-- What each mention of a flag takes as its value. -/
def takenBy (flag : String) : List String → List (Option String)
  | [] => []
  | arg :: rest =>
    if arg = flag then plainHead? rest :: takenBy flag rest else takenBy flag rest

def valueTaken : Option String → Datum
  | some text => Flags.valueOf text
  | none => .bool true

section Taken

variable {name arg next : String} {words : List String} {is : List Item}

theorem valuesFor_of_not_mem_names (h : name ∉ (Word.ofString arg).names)
    (his : ∀ item ∈ is, item = .word arg ∨ (Word.ofString arg).Gives item) :
    valuesFor name is = [] := by
  refine valuesFor_eq_nil fun item hitem hname => ?_
  rcases his item hitem with rfl | hgives
  · cases hname
  · exact h (hgives.mem_names hname)

theorem valuesFor_itemsOf (hname : IsPlainName name)
    (hword : name ∈ (Word.ofString arg).names → arg = "--" ++ name) :
    valuesFor name (itemsOf arg) = if arg = "--" ++ name then [valueTaken none] else [] := by
  split
  next harg =>
    subst harg
    simp [itemsOf, ofString_name hname, switchOn, valuesFor, Item.valueFor?, valueTaken]
  next harg =>
    apply valuesFor_of_not_mem_names
    · exact fun h => harg (hword h)
    · exact fun item hitem => gives_of_mem_itemsOf hitem

theorem valuesFor_items (hname : IsPlainName name)
    (hwords : ∀ arg ∈ words, name ∈ (Word.ofString arg).names → arg = "--" ++ name) :
    valuesFor name (items words) = (takenBy ("--" ++ name) words).map valueTaken := by
  have hdash : startsWithDash ("--" ++ name) = true := by simp [startsWithDash]
  fun_induction items words with
  | case1 => rfl
  | case2 arg =>
    rw [valuesFor_itemsOf hname (hwords arg List.mem_cons_self), takenBy]
    split <;> rfl
  | case3 arg next rest names hnext ih =>
    obtain ⟨hword, hplain⟩ := namesForNext_eq_some_iff.mp hnext
    -- The word that is taken as a value is itself no mention of the flag.
    have hne : next ≠ "--" ++ name := by
      rintro rfl
      rw [hdash] at hplain
      cases hplain
    have ih := ih fun arg' harg' =>
      hwords arg' (List.mem_cons_of_mem _ (List.mem_cons_of_mem _ harg'))
    have hrest : takenBy ("--" ++ name) (next :: rest) = takenBy ("--" ++ name) rest := if_neg hne
    rw [valuesFor_append, ih, takenBy, hrest]
    split
    next harg =>
      rw [harg, ofString_name hname] at hword
      obtain ⟨rfl, -⟩ := Word.flag.inj hword
      simp [giveLast, switchOn, valuesFor, Item.valueFor?, valueTaken, plainHead?, hplain]
    next harg =>
      have hgives : ∀ item ∈ giveLast names next, item = .word arg ∨
          (Word.ofString arg).Gives item := fun item hitem =>
        Or.inr (hword ▸ gives_of_mem_giveLast hitem)
      have hnone := fun h => harg (hwords arg List.mem_cons_self h)
      rw [valuesFor_of_not_mem_names hnone hgives, List.nil_append]
  | case4 arg next rest hnext ih =>
    have ih := ih fun arg' harg' => hwords arg' (List.mem_cons_of_mem _ harg')
    rw [valuesFor_append, ih, valuesFor_itemsOf hname (hwords arg List.mem_cons_self),
      takenBy.eq_def _ (arg :: _)]
    split
    next harg =>
      -- The flag takes any next word that begins with no dash.
      have hplain : startsWithDash next = true := by
        by_contra hplain
        have hflag : Word.ofString arg = .flag [name] none := harg ▸ ofString_name hname
        have htaken := namesForNext_eq_some_iff.mpr ⟨hflag, Bool.eq_false_iff.mpr hplain⟩
        rw [hnext] at htaken
        cases htaken
      simp [harg, plainHead?, hplain]
    next harg => simp [harg]

end Taken

section Switches

theorem isOn_of_isMade {d : Datum} (h : d.isMade = true) : d.isOn = true := by
  cases d with
  | made => rfl
  | _ => cases h

theorem isOn_valueOf {text : String} (h : Number.ofText text ≠ .zero) :
    (Flags.valueOf text).isOn = true := by
  unfold Flags.valueOf
  split
  next q hq =>
    have hne : q ≠ 0 := by
      rintro rfl
      exact h hq
    simpa [Datum.isOn, Number.isOn] using hne
  next hnumeral =>
    have hne : text ≠ "" := by
      rintro rfl
      exact hnumeral 0 (by decide)
    simpa [Datum.isOn] using hne

end Switches

section Runs

variable {args : List String} {i : Invocation}

theorem isFlagOf_dryRun : IsFlagOf "dry-run" "dryRun" :=
  { isFree := isFree_flagName .dryRun (by decide)
    not_digits := by decide
    not_length := by decide
    not_listed := by decide
    option := by decide
    not_words := by decide
    not_global := by decide }

theorem isPlainName_dryRun : IsPlainName "dry-run" := isPlainName_flagName .dryRun (by decide)

namespace AsksDryRun

variable (h : AsksDryRun args)
include h

theorem eq_flag {arg : String} (harg : arg ∈ args.takeWhile (· ≠ "--"))
    (hname : "dry-run" ∈ (Word.ofString arg).names) : arg = "--dry-run" := by
  rcases word_of_mem_names (by decide) hname with hoff | hflag | hassigned
  · exact absurd hoff (h.not_off arg harg).1
  · exact hflag
  · exact absurd hassigned (h.not_assigned arg harg)

theorem not_camel_name {arg : String} (harg : arg ∈ args.takeWhile (· ≠ "--")) :
    "dryRun" ∉ (Word.ofString arg).names := by
  intro hname
  rcases word_of_mem_names (by decide) hname with hoff | hflag | hassigned
  · exact (h.not_off arg harg).2 hoff
  · exact (h.not_camel arg harg).1 hflag
  · exact (h.not_camel arg harg).2 hassigned

theorem givesOnly : GivesOnly "dry-run" "dryRun" (items (args.takeWhile (· ≠ "--"))) where
  only item hitem other hother hoption := by
    rcases name_of_optionName hoption with rfl | rfl
    · rfl
    · obtain ⟨arg, harg, hname⟩ := exists_word_of_mem_items hitem hother
      exact absurd hname (h.not_camel_name harg)
  not_off hoff := by
    obtain ⟨arg, harg, hword⟩ := exists_word_of_off_mem_items hoff
    exact (h.not_off arg harg).1 hword

theorem valuesFor_eq : valuesFor "dry-run" (items (args.takeWhile (· ≠ "--"))) =
    (takenBy "--dry-run" (args.takeWhile (· ≠ "--"))).map valueTaken :=
  valuesFor_items isPlainName_dryRun fun _ => h.eq_flag

theorem takenBy_ne_nil : takenBy "--dry-run" (args.takeWhile (· ≠ "--")) ≠ [] := by
  have hasked := h.asked
  generalize args.takeWhile (· ≠ "--") = words at hasked
  induction words with
  | nil => cases hasked
  | cons arg words ih =>
    rw [takenBy]
    split
    next => exact List.cons_ne_nil _ _
    next hne => exact ih (List.mem_of_ne_of_mem (Ne.symm hne) hasked)

/-- A dry run is lost to one word only: a text that reads as zero, behind the only mention. -/
theorem isOn_dryRun (hadds : AddsNothing args) (hi : Invocation.ofArgs args = .ok i)
    (hzero : ∀ text, takenBy "--dry-run" (args.takeWhile (· ≠ "--")) = [some text] →
      Number.ofText text ≠ .zero) : i.isOn "dryRun" = true := by
  have hne : valuesFor "dry-run" (items (args.takeWhile (· ≠ "--"))) ≠ [] := by
    rw [h.valuesFor_eq]
    simpa using h.takenBy_ne_nil
  have hswitch : "dry-run" ∉ i.command.switches := by cases i.command <;> decide
  have hholds := Invocation.holds_option hadds hi isFlagOf_dryRun (isKey_key .dryRun (by decide))
    hswitch h.givesOnly hne
  rw [h.valuesFor_eq] at hholds
  unfold Invocation.isOn
  rcases hholds with hone | ⟨-, hmade⟩
  · obtain ⟨taken?, htaken, hvalue⟩ := List.map_eq_singleton_iff.mp hone
    rw [← hvalue]
    cases taken? with
    | none => rfl
    | some text => exact isOn_valueOf (hzero text htaken)
  · exact isOn_of_isMade hmade

end AsksDryRun

theorem asks_of_changed {platform : String} {h : Host} (hne : (run args platform h).disk ≠ h.disk) :
    ∃ i o, Asks args i o ∧ o.dryRun.isOn = false := by
  rw [run] at hne
  split at hne
  next => exact absurd rfl hne
  next i hi =>
  simp only at hne
  split at hne
  next => exact absurd rfl hne
  next =>
  split at hne
  next => exact absurd rfl hne
  next =>
  split at hne
  next => exact absurd rfl hne
  next =>
  obtain ⟨i, o, _, _, hgenerated⟩ := (effects_act hi h).changed hne
  exact ⟨i, o, hgenerated.toAsks, hgenerated.real⟩

end Runs

/-- A command line that asks for a dry run leaves the disk as it was, unless the only mention of
the dry run takes a word that reads as zero, or something is added to the shared objects. -/
theorem disk_of_asksDryRun {args : List String} (hasks : AsksDryRun args)
    (hadds : AddsNothing args)
    (hzero : ∀ text, takenBy "--dry-run" (args.takeWhile (· ≠ "--")) = [some text] →
      Number.ofText text ≠ .zero) (platform : String) (h : Host) :
    (run args platform h).disk = h.disk := by
  by_contra hne
  obtain ⟨i, o, hrun, hreal⟩ := asks_of_changed hne
  have hon := hasks.isOn_dryRun hadds hrun.read hzero
  rw [Invocation.isOn_eq, ← (SpawnOptions.readFrom hrun.options).dryRun, hreal] at hon
  cases hon

/-- The first of two mentions takes a word that reads as zero. Without them a prompt is written. -/
theorem disk_of_asksDryRun_twice :
    let options := ["--count", "1", "--template", "t", "--out-dir", "o"]
    let args := options ++ ["--dry-run", "0", "--json", "--dry-run"]
    let h : Host := ⟨⟨.directory [("t", .file [65])], []⟩, {}⟩
    AsksDryRun args ∧ AddsNothing args ∧
      takenBy "--dry-run" (args.takeWhile (· ≠ "--")) = [some "0", none] ∧
      (run options "" h).disk.node? ["o", "agent_01.md"] = some (.file [65]) ∧
      (run args "" h).disk = h.disk := by
  intro options args h
  have hasks : AsksDryRun args := ⟨by decide, by decide, by decide, by decide⟩
  have htaken : takenBy "--dry-run" (args.takeWhile (· ≠ "--")) = [some "0", none] := by decide
  have hadds : AddsNothing args := addsNothing_of_undotted (by decide +kernel)
  refine ⟨hasks, hadds, htaken, by decide +kernel, disk_of_asksDryRun hasks hadds ?_ "" h⟩
  intro text htext
  rw [htaken] at htext
  cases htext

/-- A word that reads as zero behind the only mention: the run writes its prompt. -/
theorem not_disk_of_asksDryRun_zero : ¬ ∀ (args : List String) (platform : String) (h : Host),
    AsksDryRun args → (run args platform h).disk = h.disk := by
  intro hall
  let args := ["--count", "1", "--template", "t", "--out-dir", "o", "--dry-run", "0"]
  let h : Host := ⟨⟨.directory [("t", .file [65])], []⟩, {}⟩
  have hsame : (run args "" h).disk = h.disk :=
    hall args "" h ⟨by decide, by decide, by decide, by decide⟩
  have hbefore : h.disk.node? ["o", "agent_01.md"] = none := by decide +kernel
  have hafter : (run args "" h).disk.node? ["o", "agent_01.md"] = some (.file [65]) := by
    decide +kernel
  rw [hsame, hbefore] at hafter
  cases hafter

end AgentPrompts.CommandLine
