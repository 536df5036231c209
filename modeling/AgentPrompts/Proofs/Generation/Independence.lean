import AgentPrompts.Proofs.FileTree.Altering
import AgentPrompts.Proofs.Generation.Progress

/-! # Independent generations

A generation that returns makes the directories on the way to its output directory and
writes its prompt files, and nothing else becomes of the disk. Two generations that write
different files, and no file that the other takes for its template, can therefore be run
in either order, also when their output directories lie in each other.
-/

namespace AgentPrompts.Generation

open Change Disk Location Number

variable {s a b : Settings} {d d' : Disk} {g g' : Generation} {template template' : String}
  {i m n : Nat}

def foundAt (s : Settings) (d : Disk) (agent : Nat) : Except Fault Location :=
  (generate s d).disk.locate (promptFilePath s.outDir (.ofNat agent))

/-- Of two generations on the same disk, the first writes no prompt file of the second and
not its template. -/
structure Spares (d : Disk) (a b : Settings) : Prop where
  prompts : ∀ i ∈ a.count.agents, ∀ j ∈ b.count.agents, foundAt a d i ≠ foundAt b d j
  template : ∀ i ∈ a.count.agents, foundAt a d i ≠ d.locate b.template

structure BothReturn (d : Disk) (a b : Settings) : Prop where
  first : ∃ r, (generate a d).result = .ok r
  second : ∃ r, (generate b (generate a d).disk).result = .ok r

structure SameReport (g g' : Generation) : Prop where
  lines : g'.emissions.map Emission.line = g.emissions.map Emission.line
  result : g'.result = g.result

/-- Two generations of which neither shows whether the other was before it. -/
structure Interchange (d : Disk) (a b : Settings) : Prop where
  disk : (generate b (generate a d).disk).disk = (generate a (generate b d).disk).disk
  first : SameReport (generate a d) (generate a (generate b d).disk)
  second : SameReport (generate b d) (generate b (generate a d).disk)

def changes (s : Settings) (d : Disk) (template : String) : List Change :=
  (stops (d.start s.outDir) (pathParts s.outDir)).map .directory ++
    s.count.agents.map fun i => .file (place d s.outDir i) (promptBytes template i)

/-- Where a generation starts, and not what stands there, decides what it changes. -/
theorem changes_eq (h : d'.workingDirectory = d.workingDirectory) (s : Settings)
    (template : String) : changes s d' template = changes s d template := by
  simp only [changes, place, start_eq h, target_eq h]

theorem putPrompts_eq_applyAll (template outDir : String) (d : Disk) (agents : List Nat) :
    putPrompts template outDir d agents =
      applyAll d (agents.map fun i => .file (place d outDir i) (promptBytes template i)) := by
  induction agents generalizing d with
  | nil => rfl
  | cons i agents ih =>
    rw [List.map_cons, applyAll_cons, apply_file, putPrompts, List.foldl_cons]
    exact ih (putPrompt template outDir d i)

theorem file_mem_changes {l : Location} {content : List UInt8}
    (h : .file l content ∈ changes s d template) :
    ∃ i ∈ s.count.agents, l = place d s.outDir i := by
  rcases List.mem_append.mp h with h | h
  · obtain ⟨_, _, he⟩ := List.mem_map.mp h
    cases he
  · obtain ⟨i, hi, he⟩ := List.mem_map.mp h
    exact ⟨i, hi, (Change.file.inj he).1.symm⟩

theorem applyAll_changes {made : Disk} {n : Nat} (hd : d.makeDirectory s.outDir = (made, none))
    (hn : s.count.agents = firstAgents n) (template : String) :
    applyAll d (changes s d template) = (unhindered s template made n).disk := by
  have hgrown := makeDirectory_grown d s.outDir
  rw [hd] at hgrown
  rw [changes, applyAll_append, ← makeDirectory_eq_applyAll hd, hn, unhindered,
    putPrompts_eq_applyAll]
  simp only [place_of_extends hgrown.extends]

structure Returned (s : Settings) (d : Disk) (template : String) (n : Nat) (g : Generation) :
    Prop where
  agents : s.count.agents = firstAgents n
  load : loadTemplate d s.template = .ok template
  unhindered : ∃ made, g = unhindered s template made n
  leads : g.disk.Leads s.outDir
  disk : g.disk = applyAll d (changes s d template)
  wrote : Wrote s d g n

theorem returned_of_generate (hx : s.count.BelowExact) (hn : s.count.agents = firstAgents n)
    (hr : ∃ r, (generate s d).result = .ok r) :
    ∃ template, Returned s d template n (generate s d) := by
  obtain ⟨r, hr⟩ := hr
  have hbound : ∀ i ∈ firstAgents n, i < exactBound :=
    fun i hi => lt_exactBound_of_mem_agents hx (hn ▸ hi)
  obtain ⟨template, made, ht, hd, hw, hg⟩ := (run_generate s d hx).eq_unhindered hr hn
  have hl := leads_of_made hd
  rw [hg]
  exact ⟨template, hn, ht, ⟨made, rfl⟩, (holds_putPrompts template hl hw hbound).extends.leads hl,
    (applyAll_changes hd hn template).symm, wrote_unhindered ht hd hw hbound⟩

namespace Returned

theorem shows (h : Returned s d template n g) {c : Change} (hc : c ∈ changes s d template) :
    c.Shows g.disk := by
  rcases List.mem_append.mp hc with hc | hc
  · obtain ⟨l, hl, rfl⟩ := List.mem_map.mp hc
    refine h.leads.stops l ?_
    rwa [start_eq h.wrote.extended.workingDirectory]
  · obtain ⟨i, hi, rfl⟩ := List.mem_map.mp hc
    exact ⟨_, h.wrote.file h.load (h.agents ▸ hi)⟩

theorem sameReport (h : Returned s d template n g) (h' : Returned s d' template n g') :
    SameReport g g' := by
  obtain ⟨made, rfl⟩ := h.unhindered
  obtain ⟨made', rfl⟩ := h'.unhindered
  exact ⟨by rw [lines_unhindered, lines_unhindered], rfl⟩

end Returned

section Pair

variable (ha : Returned a d template n (generate a d))
  (hb : Returned b d template' m (generate b d))
include ha hb

theorem Returned.behind (hs : Spares d a b) (hx : b.count.BelowExact)
    (hr : ∃ r, (generate b (generate a d).disk).result = .ok r) :
    Returned b (generate a d).disk template' m (generate b (generate a d).disk) := by
  obtain ⟨reread, h⟩ := returned_of_generate hx hb.agents hr
  have hload : loadTemplate (generate a d).disk b.template = .ok template' := by
    refine ha.wrote.loadTemplate_of_ne hb.load fun i hi he => ?_
    exact hs.template i (ha.agents ▸ hi) ((ha.wrote.located hi).trans he.symm)
  obtain rfl := Except.ok.inj (h.load.symm.trans hload)
  exact h

theorem not_overlap_changes (hs : Spares d a b) {c c' : Change}
    (hc : c ∈ changes a d template) (hc' : c' ∈ changes b d template') : ¬ Overlap c c' := by
  rintro ⟨l, x, y, rfl, rfl⟩
  obtain ⟨i, hi, rfl⟩ := file_mem_changes hc
  obtain ⟨j, hj, he⟩ := file_mem_changes hc'
  refine hs.prompts i hi j hj ?_
  rw [foundAt, foundAt, ha.wrote.located (ha.agents ▸ hi), hb.wrote.located (hb.agents ▸ hj), he]

/-- What two generations change can be changed in either order. -/
theorem disk_interchange (hs : Spares d a b)
    (hab : Returned b (generate a d).disk template' m (generate b (generate a d).disk))
    (hba : Returned a (generate b d).disk template n (generate a (generate b d).disk)) :
    (generate b (generate a d).disk).disk = (generate a (generate b d).disk).disk := by
  have hchanges : changes b (generate a d).disk template' = changes b d template' :=
    changes_eq ha.wrote.extended.workingDirectory b template'
  have hpairs : ∀ c ∈ changes a d template, ∀ c' ∈ changes b d template', ∀ e,
      apply (apply e c) c' = apply (apply e c') c := by
    intro c hc c' hc'
    -- both still show when both generations have returned, so neither stands in the way
    have hshow := (ha.shows hc).extend hab.wrote.extended
    have hshow' := hab.shows (hchanges ▸ hc')
    have hover := not_overlap_changes ha hb hs hc hc'
    exact apply_comm (effect_eq_id hshow hshow' hover)
      (effect_eq_id hshow' hshow fun ⟨l, x, y, he, he'⟩ => hover ⟨l, y, x, he', he⟩)
  calc (generate b (generate a d).disk).disk
      = applyAll (applyAll d (changes a d template)) (changes b d template') := by
        rw [hab.disk, hchanges, ← ha.disk]
    _ = applyAll (applyAll d (changes b d template')) (changes a d template) :=
        applyAll_comm hpairs d
    _ = (generate a (generate b d).disk).disk := by
        rw [hba.disk, changes_eq hb.wrote.extended.workingDirectory, ← hb.disk]

end Pair

/-- Generations that spare each other can be interchanged wherever both orders return. -/
theorem interchange_of_spares (ha : a.count.BelowExact) (hb : b.count.BelowExact)
    (hs : Spares d a b) (hs' : Spares d b a) (hab : BothReturn d a b) (hba : BothReturn d b a) :
    Interchange d a b := by
  obtain ⟨n, hn⟩ := exists_agents a.count
  obtain ⟨m, hm⟩ := exists_agents b.count
  obtain ⟨template, hfirst⟩ := returned_of_generate ha hn hab.first
  obtain ⟨template', hsecond⟩ := returned_of_generate hb hm hba.first
  have hbehind := hfirst.behind hsecond hs hb hab.second
  have hbehind' := hsecond.behind hfirst hs' ha hba.second
  exact ⟨disk_interchange hfirst hsecond hs hbehind hbehind', hfirst.sameReport hbehind',
    hsecond.sameReport hbehind⟩

def bare : Disk :=
  ⟨.directory [("w", .directory [("t", .file [123, 78, 125]), ("u", .file [120])])], ["w"]⟩

/-- One output directory lies in the other, and either generation makes their parents. -/
theorem interchange_of_spares_nested :
    let a : Settings := ⟨.ofNat 2, "t", "n/o"⟩
    let b : Settings := ⟨.ofNat 1, "./u", "n/x/..//o/p/"⟩
    let final := (generate b (generate a bare).disk).disk
    final.node? ["w", "n", "o", "agent_02.md"] = some (.file [50]) ∧
      final.node? ["w", "n", "o", "p", "agent_01.md"] = some (.file [120]) ∧
      final.node? ["w", "n", "x"] = some .directory ∧ Interchange bare a b := by
  intro a b final
  have hs : Spares bare a b := ⟨by decide +kernel, by decide +kernel⟩
  have hs' : Spares bare b a := ⟨by decide +kernel, by decide +kernel⟩
  have hab : BothReturn bare a b :=
    ⟨exists_of_isOk (by decide +kernel), exists_of_isOk (by decide +kernel)⟩
  have hba : BothReturn bare b a :=
    ⟨exists_of_isOk (by decide +kernel), exists_of_isOk (by decide +kernel)⟩
  exact ⟨by decide +kernel, by decide +kernel, by decide +kernel,
    interchange_of_spares (belowExact_ofNat.mpr (by decide)) (belowExact_ofNat.mpr (by decide))
      hs hs' hab hba⟩

end AgentPrompts.Generation
