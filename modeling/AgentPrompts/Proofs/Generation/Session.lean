import AgentPrompts.Proofs.Generation.Progress

/-! # Sessions

Generations run one after the other into one output directory, with templates and counts
of their own, and each may fail on the way. In the end the prompt file of an agent holds
what the last run wrote that emitted its path line, and a file whose path no run emitted
is as it was.
-/

namespace AgentPrompts.Generation

open Disk Number

structure SessionRun where
  settings : Settings
  found : Disk
  ended : Generation

/-- The generations of a session, each on the disk that the one before it left. -/
def session (d : Disk) : List Settings → List SessionRun
  | [] => []
  | s :: ss => ⟨s, d, generate s d⟩ :: session (generate s d).disk ss

def afterSession (d : Disk) : List Settings → Disk
  | [] => d
  | s :: ss => afterSession (generate s d).disk ss

def EmittedIn (runs : List SessionRun) (outDir : String) (agent : Nat) : Prop :=
  ∃ run ∈ runs, Emits run.ended outDir agent

structure LastToEmit (runs : List SessionRun) (outDir : String) (agent : Nat) (run : SessionRun) :
    Prop where
  emits : Emits run.ended outDir agent
  last : ∃ earlier later, runs = earlier ++ run :: later ∧ ¬ EmittedIn later outDir agent

/-- What a session makes of an output directory: each prompt file is that of the last run
which emitted its line, and other files are as they were. -/
structure LastWritten (outDir : String) (d : Disk) (runs : List SessionRun) (final : Disk) :
    Prop where
  written : ∀ i, i < exactBound → EmittedIn runs outDir i →
    ∃ run template, LastToEmit runs outDir i run ∧
      loadTemplate run.found run.settings.template = .ok template ∧
      final.readFile (promptFilePath outDir (.ofNat i)) =
        .ok (Utf8.encode (renderPrompt template (.ofNat i)))
  kept : ∀ l content, d.node? l = some (.file content) →
    (∀ i, i < exactBound → EmittedIn runs outDir i →
      final.locate (promptFilePath outDir (.ofNat i)) ≠ .ok l) →
    final.node? l = some (.file content)

/-- What every part of a session keeps, from the disk that it finds to the one it leaves. -/
structure Tracked (outDir : String) (d : Disk) (runs : List SessionRun) (final : Disk) : Prop where
  extended : Extends d final
  stored : ∀ i, i < exactBound → EmittedIn runs outDir i →
    ∃ run template, LastToEmit runs outDir i run ∧
      loadTemplate run.found run.settings.template = .ok template ∧
      Stored final outDir i (promptBytes template i)
  kept : ∀ l content, d.node? l = some (.file content) →
    (∀ i, i < exactBound → EmittedIn runs outDir i → l ≠ place d outDir i) →
    final.node? l = some (.file content)

section Sessions

variable {outDir : String} {d final : Disk} {runs : List SessionRun} {run : SessionRun} {i k : Nat}

theorem emittedIn_cons : EmittedIn (run :: runs) outDir i ↔
    Emits run.ended outDir i ∨ EmittedIn runs outDir i := by
  simp [EmittedIn]

theorem LastToEmit.cons {last : SessionRun} (h : LastToEmit runs outDir i last)
    (run : SessionRun) : LastToEmit (run :: runs) outDir i last := by
  obtain ⟨earlier, later, rfl, hlater⟩ := h.last
  exact ⟨h.emits, run :: earlier, later, rfl, hlater⟩

/-- A run before a part of a session adds the files that it writes and no later run
writes again. -/
theorem Tracked.cons (run : SessionRun) (h : Tracked outDir run.ended.disk runs final)
    (hw : Wrote run.settings run.found run.ended k) (hdir : run.settings.outDir = outDir) :
    Tracked outDir run.found (run :: runs) final := by
  subst hdir
  refine ⟨hw.extended.trans h.extended, ?_, ?_⟩
  · intro i hi hemitted
    by_cases hlater : EmittedIn runs run.settings.outDir i
    · obtain ⟨last, template, hlast, hfile⟩ := h.stored i hi hlater
      exact ⟨last, template, hlast.cons run, hfile⟩
    · have hemits := (emittedIn_cons.mp hemitted).resolve_right hlater
      obtain ⟨template, ht, hstored⟩ := hw.stored i ((hw.emits_iff i hi).mp hemits)
      refine ⟨run, template, ⟨hemits, [], runs, rfl, hlater⟩, ht,
        hstored.extend h.extended (h.kept _ _ hstored.file fun j hj hemitted' he => ?_)⟩
      exact hlater (place_inj hi hj he ▸ hemitted')
  · intro l content hfile hne
    refine h.kept l content (hw.kept l content hfile fun i hi => ?_) fun i hi hemitted => ?_
    · have hemits := (hw.emits_iff i (hw.exact i hi)).mpr hi
      exact hne i (hw.exact i hi) (emittedIn_cons.mpr (Or.inl hemits))
    · rw [place_of_extends hw.extended]
      exact hne i hi (emittedIn_cons.mpr (Or.inr hemitted))

theorem tracked_session {ss : List Settings} (hdir : ∀ s ∈ ss, s.outDir = outDir)
    (hx : ∀ s ∈ ss, s.count.BelowExact) :
    Tracked outDir d (session d ss) (afterSession d ss) := by
  induction ss generalizing d with
  | nil =>
    have hnone : ∀ i, ¬ EmittedIn [] outDir i := fun i ⟨run, hrun, _⟩ => by cases hrun
    exact ⟨Extends.refl d, fun i _ h => absurd h (hnone i), fun _ _ h _ => h⟩
  | cons s ss ih =>
    obtain ⟨hs, hrest⟩ := List.forall_mem_cons.mp hdir
    obtain ⟨hxs, hxrest⟩ := List.forall_mem_cons.mp hx
    obtain ⟨k, hw⟩ := (run_generate s d hxs).wrote hxs
    have htail : Tracked outDir (generate s d).disk (session (generate s d).disk ss)
        (afterSession (generate s d).disk ss) := ih hrest hxrest
    exact htail.cons ⟨s, d, generate s d⟩ hw hs

end Sessions

/-- After a session each prompt file is that of the last run which emitted its line. -/
theorem lastWritten_session {outDir : String} (d : Disk) {ss : List Settings}
    (hdir : ∀ s ∈ ss, s.outDir = outDir) (hx : ∀ s ∈ ss, s.count.BelowExact) :
    LastWritten outDir d (session d ss) (afterSession d ss) := by
  have h : Tracked outDir d (session d ss) (afterSession d ss) := tracked_session hdir hx
  refine ⟨?_, ?_⟩
  · intro i hi hemitted
    obtain ⟨run, template, hlast, ht, hstored⟩ := h.stored i hi hemitted
    exact ⟨run, template, hlast, ht, (hstored.read hi).2⟩
  · intro l content hfile hne
    refine h.kept l content hfile fun i hi hemitted he => ?_
    obtain ⟨_, _, _, _, hstored⟩ := h.stored i hi hemitted
    refine hne i hi hemitted ?_
    rw [(hstored.read hi).1, place_of_extends h.extended, he]

/-- A disk with a template among the prompt files and a directory in the place of the third. -/
def crowded : Disk :=
  ⟨.directory [("o", .directory [("agent_01.md", .file [123, 78, 125]),
    ("agent_03.md", .directory []), ("x", .file [120])])], []⟩

/-- The second run reads what the first wrote, and the third fails after two prompts. -/
theorem lastWritten_session_crowded :
    let ss : List Settings := [⟨.ofNat 2, "o/agent_01.md", "o"⟩, ⟨.ofNat 1, "o/agent_02.md", "o"⟩,
      ⟨.ofNat 3, "o/x", "o"⟩, ⟨.ofNat 1, "o/agent_01.md/", "o"⟩]
    let final := afterSession crowded ss
    (session crowded ss).map (fun run => run.ended.result.isOk) = [true, true, false, false] ∧
      final.node? ["o", "agent_01.md"] = some (.file [120]) ∧
      final.node? ["o", "agent_02.md"] = some (.file [120]) ∧
      LastWritten "o" crowded (session crowded ss) final := by
  intro ss final
  have hdir : ∀ s ∈ ss, s.outDir = "o" := by simp [ss]
  have hx : ∀ s ∈ ss, s.count.BelowExact := by simp [ss, belowExact_ofNat, exactBound]
  exact ⟨by decide +kernel, by decide +kernel, by decide +kernel, lastWritten_session _ hdir hx⟩

end AgentPrompts.Generation
