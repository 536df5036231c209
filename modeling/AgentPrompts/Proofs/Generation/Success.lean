import AgentPrompts.Proofs.Generation.Failing
import AgentPrompts.Proofs.Path.Upwards

/-! # When a generation returns

A generation returns if and only if its template is a file, its output directory can be
made and no prompt file is blocked there. Once the directory is made every prompt file
lands in it, however its path is spelled, and only a directory in the place of a file or
the length of a path stops the writing.
-/

namespace AgentPrompts.Generation

open Disk Location Number

variable {s : Settings} {d made : Disk} {g : Generation} {template : String} {n : Nat}

theorem Run.returns_iff (hrun : Run s d g) : (∃ r, g.result = .ok r) ↔
    (∃ content, d.stat s.template = .ok (.file content)) ∧
      ∃ made, d.makeDirectory s.outDir = (made, none) ∧
        ∀ a ∈ s.count.agents, blocked? made s.outDir a = none := by
  constructor
  · rintro ⟨r, hr⟩
    cases hrun with
    | @finished template made n ht hd hn hw =>
      obtain ⟨content, hstat, _⟩ := loadTemplate_eq_ok_iff.mp ht
      exact ⟨⟨content, hstat⟩, made, hd, hn ▸ hw⟩
    | _ => cases hr
  · rintro ⟨⟨content, hstat⟩, made', hd', hw'⟩
    have ht' := loadTemplate_eq_ok_iff.mpr ⟨content, hstat, rfl⟩
    cases hrun with
    | noTemplate ht =>
      rw [ht] at ht'
      cases ht'
    | noDirectory ht hd =>
      rw [hd] at hd'
      cases hd'
    | stopped ht hd hn hk hw hb =>
      rw [hd] at hd'
      obtain ⟨rfl, _⟩ := Prod.mk.inj hd'
      rw [hw' _ (hn ▸ mem_firstAgents.mpr ⟨by omega, hk⟩)] at hb
      cases hb
    | finished ht hd hn hw => exact ⟨_, rfl⟩

/-- How a generation of `n` prompts writes into the directory `dir` of the disk `made`. -/
structure LandsIn (s : Settings) (template : String) (n : Nat) (made : Disk) (dir : Location)
    (g : Generation) : Prop where
  landed : ∀ i ∈ firstAgents n, ∀ em, g.emissions[i]? = some em →
    em.disk.node? (dir ++ [promptFileName (.ofNat i)]) = some (.file (promptBytes template i)) ∧
    em.disk.locate (promptFilePath s.outDir (.ofNat i)) =
      .ok (dir ++ [promptFileName (.ofNat i)]) ∧
    em.disk.readFile (promptFilePath s.outDir (.ofNat i)) = .ok (promptBytes template i)
  elsewhere : ∀ l, (∀ i ∈ firstAgents n, l ≠ dir ++ [promptFileName (.ofNat i)]) →
    g.disk.node? l = made.node? l
  failure : ∀ f, g.result = .error f → ∃ i ∈ firstAgents n, ∃ e, f = .access e ∧
    g.disk.writeFile (promptFilePath s.outDir (.ofNat i)) (promptBytes template i) = .error e ∧
    (e = .fault .isDirectory "open" (promptFilePath s.outDir (.ofNat i)) ∨
      e = .fault .nameTooLong "open" (promptFilePath s.outDir (.ofNat i)))

theorem blocked?_eq_some {outDir : String} {a : Nat} {e : AccessError}
    (h : blocked? d outDir a = some e) :
    e = .fault .isDirectory "open" (promptFilePath outDir (.ofNat a)) ∨
      e = .fault .nameTooLong "open" (promptFilePath outDir (.ofNat a)) := by
  rw [blocked?] at h
  split at h
  next => exact Or.inr (Option.some_inj.mp h).symm
  next =>
    split at h
    next => exact Or.inl (Option.some_inj.mp h).symm
    next => cases h

theorem Run.holds (hrun : Run s d g) (hx : s.count.BelowExact)
    (ht : loadTemplate d s.template = .ok template)
    (hd : d.makeDirectory s.outDir = (made, none)) (hn : s.count.agents = firstAgents n) :
    ∃ k, k ≤ n ∧ Holds template s.outDir made k g.disk := by
  have hl := leads_of_made hd
  have hbound : ∀ a ∈ firstAgents n, a < exactBound :=
    fun a ha => lt_exactBound_of_mem_agents hx (hn ▸ ha)
  cases hrun with
  | noTemplate ht' =>
    rw [ht] at ht'
    cases ht'
  | noDirectory ht' hd' =>
    rw [hd] at hd'
    cases hd'
  | @stopped template' made' e n' k ht' hd' hn' hk hw hb =>
    obtain rfl := Except.ok.inj (ht.symm.trans ht')
    obtain ⟨rfl, _⟩ := Prod.mk.inj (hd.symm.trans hd')
    have hlen : n' = n := by
      rw [← length_firstAgents n', ← hn', hn, length_firstAgents]
    have hsub := firstAgents_subset (hlen ▸ hk.le)
    exact ⟨k, hlen ▸ hk.le, holds_putPrompts template hl hw fun a ha => hbound a (hsub ha)⟩
  | @finished template' made' n' ht' hd' hn' hw =>
    obtain rfl := Except.ok.inj (ht.symm.trans ht')
    obtain ⟨rfl, _⟩ := Prod.mk.inj (hd.symm.trans hd')
    have hsame : firstAgents n' = firstAgents n := hn'.symm.trans hn
    rw [hsame] at hw ⊢
    exact ⟨n, le_rfl, holds_putPrompts template hl hw hbound⟩

theorem fault_of_writeFile {outDir : String} {a : Nat} {content : List UInt8} {e : AccessError}
    (hl : d.Leads outDir) (ha : a < exactBound)
    (he : d.writeFile (promptFilePath outDir (.ofNat a)) content = .error e) :
    e = .fault .isDirectory "open" (promptFilePath outDir (.ofNat a)) ∨
      e = .fault .nameTooLong "open" (promptFilePath outDir (.ofNat a)) := by
  rw [writeFile_promptFilePath hl ha] at he
  cases hb : blocked? d outDir a with
  | none =>
    rw [hb] at he
    cases he
  | some e' =>
    rw [hb] at he
    obtain rfl := Except.error.inj he
    exact blocked?_eq_some hb

theorem Run.landsIn (hrun : Run s d g) (hx : s.count.BelowExact)
    (ht : loadTemplate d s.template = .ok template)
    (hd : d.makeDirectory s.outDir = (made, none)) (hn : s.count.agents = firstAgents n) :
    LandsIn s template n made (made.target s.outDir) g := by
  have hl := leads_of_made hd
  have hbound : ∀ a ∈ firstAgents n, a < exactBound :=
    fun a ha => lt_exactBound_of_mem_agents hx (hn ▸ ha)
  refine ⟨?_, ?_, ?_⟩
  · intro i hi em he
    obtain ⟨template', made', ht', hd', _, hfree, hholds⟩ := hrun.emission hx (hn ▸ hi) he
    obtain rfl := Except.ok.inj (ht.symm.trans ht')
    obtain ⟨rfl, _⟩ := Prod.mk.inj (hd.symm.trans hd')
    have hs := hholds.directories
    have hfile := hholds.prompt i (mem_firstAgents.mp hi).1 le_rfl
    refine ⟨hfile, ?_⟩
    rw [← hs.place] at hfile
    have hread := readFile_promptFilePath (hs.leads hl) (hbound i hi)
      (blocked?_eq_none_iff.mp hfree).1 hfile
    rwa [hs.place] at hread
  · intro l hne
    obtain ⟨k, hk, hholds⟩ := hrun.holds hx ht hd hn
    refine hholds.elsewhere l fun i h₁ h₂ => ?_
    exact hne i (mem_firstAgents.mpr ⟨h₁, h₂.trans hk⟩)
  · intro f hf
    rcases hrun.failed hx hf with h | h | ⟨template', made', k, h⟩
    · have hload := h.load
      rw [ht] at hload
      cases hload
    · obtain ⟨e, he, _⟩ := h.cause
      rw [hd] at he
      cases he
    · obtain rfl := Except.ok.inj (ht.symm.trans h.load)
      obtain ⟨rfl, _⟩ := Prod.mk.inj (hd.symm.trans h.directory)
      obtain ⟨e, rfl, hmade, hwrite⟩ := h.cause
      have hagent := hn ▸ h.agent
      exact ⟨k, hagent, e, rfl, hwrite, fault_of_writeFile hl (hbound k hagent) hmade⟩

/-- A generation returns if and only if its template is a file, its output directory can be
made, and there no directory stands in the place of a prompt file whose path is not too
long. When the directory is made, prompt files land in it and nothing else stops them. -/
theorem returns_iff_and_landsIn (hc : s.count = .ofNat n) (hn : n < exactBound) :
    ((∃ r, (generate s d).result = .ok r) ↔
      (∃ content, d.stat s.template = .ok (.file content)) ∧
      ∃ made dir, d.makeDirectory s.outDir = (made, none) ∧ made.locate s.outDir = .ok dir ∧
        ∀ i ∈ firstAgents n,
          made.node? (dir ++ [promptFileName (.ofNat i)]) ≠ some .directory ∧
          (promptFilePath s.outDir (.ofNat i)).utf8ByteSize ≤ maxPathBytes) ∧
    ∀ made, d.makeDirectory s.outDir = (made, none) →
      ∃ dir, made.locate s.outDir = .ok dir ∧ made.node? dir = some .directory ∧
        ∀ template, loadTemplate d s.template = .ok template →
          LandsIn s template n made dir (generate s d) := by
  have hx : s.count.BelowExact := hc ▸ belowExact_ofNat.mpr hn
  have hagents : s.count.agents = firstAgents n := by rw [hc, agents_ofNat]
  have hrun := run_generate s d hx
  constructor
  · rw [hrun.returns_iff, hagents]
    refine and_congr_right fun _ => exists_congr fun made => ?_
    constructor
    · rintro ⟨hd, hfree⟩
      refine ⟨made.target s.outDir, hd, (leads_of_made hd).locate, fun i hi => ?_⟩
      exact (blocked?_eq_none_iff.mp (hfree i hi)).symm
    · rintro ⟨dir, hd, hdir, hfree⟩
      obtain rfl := Except.ok.inj (hdir.symm.trans (leads_of_made hd).locate)
      exact ⟨hd, fun i hi => blocked?_eq_none_iff.mpr (hfree i hi).symm⟩
  · intro made hd
    have hl := leads_of_made hd
    exact ⟨made.target s.outDir, hl.locate, hl.node?_target,
      fun template ht => hrun.landsIn hx ht hd hagents⟩

/-- The directory `x` is made because the path of the output directory passes through it. -/
theorem returns_iff_and_landsIn_dots :
    let s : Settings := ⟨.ofNat 2, "t", "x/..//o/."⟩
    let d : Disk := ⟨.directory [("t", .file [123, 78, 125])], []⟩
    ∃ made dir, d.makeDirectory s.outDir = (made, none) ∧ made.locate s.outDir = .ok dir ∧
      ∀ i ∈ firstAgents 2, made.node? (dir ++ [promptFileName (.ofNat i)]) ≠ some .directory ∧
        (promptFilePath s.outDir (.ofNat i)).utf8ByteSize ≤ maxPathBytes := by
  intro s d
  have hreturns : ∃ r, (generate s d).result = .ok r := exists_of_isOk (by decide +kernel)
  exact ((returns_iff_and_landsIn rfl (by decide)).1.mp hreturns).2

def nested (e : Entry) : Nat → Entry
  | 0 => e
  | n + 1 => .directory [("a", nested e n)]

def deep (n : Nat) : Disk :=
  ⟨nested (.directory [("t", .file [65, 123, 78, 125])]) n, List.replicate n "a"⟩

theorem get?_nested (e : Entry) (n : Nat) (m : Location) :
    (nested e n).get? (List.replicate n "a" ++ m) = e.get? m := by
  induction n with
  | zero => rfl
  | succ n ih => simp [nested, List.replicate_succ, Entry.get?, Entry.children, ih]

theorem holdsNul_upwards (n : Nat) : holdsNul (upwards n) = false := by
  have hsep : ("/" : String).toList = ['/'] := by decide
  simp only [holdsNul, List.contains_eq_mem, decide_eq_false_iff_not, upwards]
  rw [String.toList_intercalate]
  intro h
  rcases mem_intercalate h with h | ⟨piece, hp, hc⟩
  · simp [hsep] at h
  · rw [List.map_replicate] at hp
    rw [List.eq_of_mem_replicate hp] at hc
    revert hc
    decide

theorem utf8ByteSize_promptFilePath_upwards (n : Nat) :
    (promptFilePath (upwards (n + 1)) (.ofNat 1)).utf8ByteSize = 3 * n + 14 := by
  have hname : (promptFileName (.ofNat 1)).utf8ByteSize = 11 := by decide +kernel
  rw [promptFilePath, utf8ByteSize_joinPath_upwards, hname]

theorem node?_workingDirectory_deep (n : Nat) :
    (deep n).node? (List.replicate n "a") = some .directory := by
  have hget := get?_nested (.directory [("t", .file [65, 123, 78, 125])]) n []
  rw [List.append_nil] at hget
  rw [node?, deep, hget]
  rfl

theorem leads_upwards {n : Nat} (h : 3 * n + 2 ≤ maxPathBytes) :
    (deep (n + 1)).Leads (upwards (n + 1)) where
  noNul := holdsNul_upwards (n + 1)
  usable := by
    have hsize := utf8ByteSize_upwards n
    have hne : upwards (n + 1) ≠ "" := by
      intro he
      rw [he] at hsize
      simp at hsize
    rw [pathFault?, if_neg hne, if_neg (by omega)]
  stops := by
    rw [pathParts_upwards, start, isAbsolutePath_upwards, if_neg Bool.false_ne_true]
    have hup : ∀ l, (deep (n + 1)).node? l = some .directory →
        (deep (n + 1)).node? l.dropLast = some .directory := fun l => node?_dropLast
    exact forall_mem_stops_dots hup (node?_workingDirectory_deep (n + 1)) (n + 1)
  short := by
    intro part hp
    rw [pathParts_upwards] at hp
    rw [List.eq_of_mem_replicate hp]
    decide

theorem target_upwards (n : Nat) : (deep (n + 1)).target (upwards (n + 1)) = [] := by
  rw [target, pathParts_upwards, start, isAbsolutePath_upwards, if_neg Bool.false_ne_true]
  have hwalk := walk_replicate_dots (deep (n + 1)).workingDirectory
  rwa [deep, List.length_replicate] at hwalk

theorem stat_deep (n : Nat) : (deep (n + 1)).stat "t" = .ok (.file [65, 123, 78, 125]) := by
  have hparts : pathParts "t" = ["t"] := by decide
  have hwork := node?_workingDirectory_deep (n + 1)
  have hfile : (deep (n + 1)).node? (List.replicate (n + 1) "a" ++ ["t"]) =
      some (.file [65, 123, 78, 125]) := by
    rw [node?, deep, get?_nested]
    rfl
  have hlocate : (deep (n + 1)).locate "t" = .ok (List.replicate (n + 1) "a" ++ ["t"]) := by
    have hfault : pathFault? "t" = none := by decide
    have hstart : (deep (n + 1)).start "t" = List.replicate (n + 1) "a" := rfl
    have hstep : step (List.replicate (n + 1) "a") "t" = List.replicate (n + 1) "a" ++ ["t"] :=
      step_of_isName ⟨by decide, by decide, by decide⟩
    rw [locate, hfault]
    simp only [hparts, hstart, follow, hwork]
    refine (ite_step (deep (n + 1) |>.follow · []) _ _ (by decide) ?_).trans ?_
    · rw [hstep, hfile]
      rfl
    · rw [hstep, follow]
  rw [stat, if_neg (by decide), hlocate]
  simp only [hfile]

theorem node?_deep (n : Nat) {name : String} (h : name ≠ "a") :
    (deep (n + 1)).node? [name] = none := by
  simp [node?, deep, nested, Entry.get?, Entry.children, Members.lookup_member, h]

/-- A path within the limit leads to a directory, and the path of a file in it exceeds the
limit. -/
theorem not_returns_upwards (n : Nat) (h : maxPathBytes < 3 * n + 14) :
    ¬ ∃ r, (generate ⟨.ofNat 1, "t", upwards (n + 1)⟩ (deep (n + 1))).result = .ok r := by
  intro hr
  have hx : (Number.ofNat 1).BelowExact := belowExact_ofNat.mpr (by decide)
  have hrun := run_generate ⟨.ofNat 1, "t", upwards (n + 1)⟩ (deep (n + 1)) hx
  obtain ⟨_, made, _, hw⟩ := hrun.returns_iff.mp hr
  have hagent : 1 ∈ (Number.ofNat 1).agents := by
    rw [agents_ofNat]
    decide
  have hsize := (blocked?_eq_none_iff.mp (hw 1 hagent)).1
  rw [utf8ByteSize_promptFilePath_upwards] at hsize
  omega

/-- It does not suffice that no directory stands in the place of a prompt file. -/
theorem not_returns_iff_free :
    ¬ ∀ (s : Settings) (d : Disk) (n : Nat), isAbsolutePath s.outDir = false →
      s.count = .ofNat n → n < exactBound →
      ((∃ r, (generate s d).result = .ok r) ↔
        (∃ content, d.stat s.template = .ok (.file content)) ∧
        ∃ made dir, d.makeDirectory s.outDir = (made, none) ∧ made.locate s.outDir = .ok dir ∧
          ∀ i ∈ firstAgents n,
            made.node? (dir ++ [promptFileName (.ofNat i)]) ≠ some .directory) := by
  intro h
  -- as a numeral the depth would be unfolded level by level
  obtain ⟨n, hn⟩ : ∃ n, n = 1364 := ⟨_, rfl⟩
  have hshort : 3 * n + 2 ≤ maxPathBytes := by rw [hn, maxPathBytes]; omega
  have hlong : maxPathBytes < 3 * n + 14 := by rw [hn, maxPathBytes]; omega
  have hl := leads_upwards hshort
  have hlocate := hl.locate
  rw [target_upwards] at hlocate
  have hfree : ∀ i ∈ firstAgents 1,
      (deep (n + 1)).node? ([] ++ [promptFileName (.ofNat i)]) ≠ some .directory := by
    intro i hi
    obtain rfl : i = 1 := by
      have := mem_firstAgents.mp hi
      omega
    rw [List.nil_append, node?_deep n (by decide +kernel)]
    simp
  refine not_returns_upwards n hlong ?_
  exact (h ⟨.ofNat 1, "t", upwards (n + 1)⟩ (deep (n + 1)) 1 (isAbsolutePath_upwards n) rfl
    (by decide)).mpr ⟨⟨_, stat_deep n⟩, _, [], makeDirectory_of_leads hl, hlocate, hfree⟩

end AgentPrompts.Generation
