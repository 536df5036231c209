import Mathlib.Data.List.Nodup
import AgentPrompts.Generation.Plan
import AgentPrompts.Proofs.Path.Simplified
import AgentPrompts.Proofs.Prompt.FileName

/-! # Paths of prompt files

The path of a prompt file is the normal form of the output directory with one name behind it,
and the number of the agent can be read off that name. A count lists the paths of its agents
in order, each once.
-/

namespace AgentPrompts

open Number

/-- The name of a prompt file holds the decimal digits of a number, behind a zero if there is
only one. -/
def IsPromptName (n : Nat) (name : String) : Prop :=
  ∃ digits : List Char, name.toList = "agent_".toList ++ (digits ++ ".md".toList) ∧
    digits.length = max 2 (Nat.toDigits 10 n).length ∧ (∀ c ∈ digits, c.isDigit) ∧
    Nat.ofDigitChars 10 digits 0 = n

/-- A path leads to the prompt file of an agent in the normal form of a directory. -/
structure IsPromptPath (outDir : String) (n : Nat) (path : String) : Prop where
  absolute : isAbsolutePath path = isAbsolutePath outDir
  normal : Path.IsNormal (isAbsolutePath path) (components path)
  inside : ∃ parts name, Path.IsNormalForm (isAbsolutePath outDir) (pathParts outDir) parts ∧
    components path = parts ++ [name] ∧ name = promptFileName (.ofNat n) ∧ IsPromptName n name

def Number.AtLeast : Number → Nat → Prop
  | nan, _ => False
  | infinite negative, _ => negative = false
  | finite q, n => n ≤ q

/-- The list holds the paths of the agents `1, 2, …` as far as the count goes, each once. -/
structure ListsPrompts (outDir : String) (count : Number) (files : List String) : Prop where
  entry : ∀ k path, files[k]? = some path ↔
    count.AtLeast (k + 1) ∧ path = promptFilePath outDir (.ofNat (k + 1))
  nodup : files.Nodup
  empty : files = [] ↔ ¬ count.AtLeast 1

variable {outDir : String} {count : Number} {n : Nat}

section Path

theorem isPromptName_promptFileName (h : n < exactBound) :
    IsPromptName n (promptFileName (.ofNat n)) := by
  refine ⟨_, toList_promptFileName _, ?_, fun c => isDigit_of_mem_paddedAgent h,
    ofDigitChars_paddedAgent h⟩
  rw [toList_paddedAgent h, List.length_append, List.length_replicate]
  omega

theorem isPromptPath_promptFilePath (outDir : String) (h : n < exactBound) :
    IsPromptPath outDir n (promptFilePath outDir (.ofNat n)) := by
  have hname := isName_promptFileName (.ofNat n)
  have hslash : '/' ∉ (promptFileName (.ofNat n)).toList :=
    not_mem_promptFileName h (by decide) (by decide) (by decide)
  exact {
    absolute := isAbsolutePath_joinPath outDir hname hslash
    normal := isNormal_components_joinPath hname hslash
    inside := ⟨_, _, Path.isNormalForm_ofString.mpr rfl, components_joinPath hname hslash, rfl,
      isPromptName_promptFileName h⟩ }

end Path

section List

theorem exists_agents_atLeast (h : count = nan ∨ count.BelowExact) :
    ∃ m, count.agents = firstAgents m ∧ ∀ k, k < m ↔ count.AtLeast (k + 1) := by
  cases count with
  | nan => exact ⟨0, rfl, fun k => iff_of_false (Nat.not_lt_zero k) id⟩
  | infinite negative =>
    have hnegative : negative = true := h.resolve_left nofun
    refine ⟨0, rfl, fun k => iff_of_false (Nat.not_lt_zero k) ?_⟩
    rw [AtLeast, hnegative]
    decide
  | finite q =>
    refine ⟨q.floor.toNat, rfl, fun k => ?_⟩
    have hfloor : ((k + 1 : ℕ) : ℤ) ≤ q.floor ↔ ((k + 1 : ℕ) : ℚ) ≤ q := by
      rw [Rat.le_floor_iff, Int.cast_natCast]
    rw [AtLeast, ← hfloor]
    omega

theorem nodup_firstAgents (n : Nat) : (firstAgents n).Nodup :=
  List.nodup_range.map (Nat.succ_injective)

theorem listsPrompts_listPromptFiles (outDir : String) (h : count = nan ∨ count.BelowExact) :
    ListsPrompts outDir count (listPromptFiles outDir count) := by
  have hbound : ∀ a ∈ count.agents, a < exactBound := by
    intro a ha
    rcases h with rfl | hbelow
    · cases ha
    · exact lt_exactBound_of_mem_agents hbelow ha
  obtain ⟨m, hagents, hcount⟩ := exists_agents_atLeast h
  rw [hagents] at hbound
  rw [listPromptFiles, hagents]
  constructor
  case entry =>
    intro k path
    rw [List.getElem?_map, ← hcount]
    by_cases hk : k < m
    · rw [getElem?_firstAgents hk]
      simp [hk, eq_comm]
    · have hnone : (firstAgents m)[k]? = none := by
        rw [List.getElem?_eq_none_iff, length_firstAgents]
        omega
      rw [hnone]
      simp [hk]
  case nodup =>
    refine (nodup_firstAgents m).map_on fun a ha b hb hpath => ?_
    exact promptFilePath_inj (hbound a ha) (hbound b hb) hpath
  case empty =>
    rw [List.map_eq_nil_iff, ← List.length_eq_zero_iff, length_firstAgents, ← hcount]
    omega

end List

/-- The path of a prompt file is the normal form of the directory with the name of the agent's
file behind it, so different agents have different paths. The files of a count are these paths
for the agents `1, 2, …` as far as the count goes. -/
theorem promptFiles_of_directory (outDir : String) :
    (∀ n < exactBound, IsPromptPath outDir n (promptFilePath outDir (.ofNat n))) ∧
    (∀ n < exactBound, ∀ m < exactBound,
      promptFilePath outDir (.ofNat n) = promptFilePath outDir (.ofNat m) → n = m) ∧
    ∀ count : Number, count = nan ∨ count.BelowExact →
      ListsPrompts outDir count (listPromptFiles outDir count) :=
  ⟨fun _ hn => isPromptPath_promptFilePath outDir hn,
    fun _ hn _ hm hpath => promptFilePath_inj hn hm hpath,
    fun _ hcount => listsPrompts_listPromptFiles outDir hcount⟩

/-- A directory that leaves a relative path, with a count between two agents. -/
theorem promptFiles_of_directory_dots :
    let outDir := "a//./b/../../../c/"
    IsPromptPath outDir 7 "../c/agent_07.md" ∧
    promptFilePath outDir (.ofNat 7) ≠ promptFilePath outDir (.ofNat 100) ∧
    (finite (5 / 2)).BelowExact ∧
    ListsPrompts outDir (finite (5 / 2)) ["../c/agent_01.md", "../c/agent_02.md"] := by
  intro outDir
  obtain ⟨hpath, hinj, hlists⟩ := promptFiles_of_directory outDir
  have hbelow : (finite (5 / 2)).BelowExact := by
    rw [BelowExact]
    decide +kernel
  refine ⟨?_, ?_, hbelow, ?_⟩
  · have hseven : promptFilePath outDir (.ofNat 7) = "../c/agent_07.md" := by decide +kernel
    exact hseven ▸ hpath 7 (by decide)
  · exact fun h => absurd (hinj 7 (by decide) 100 (by decide) h) (by decide)
  · have hfiles : listPromptFiles outDir (finite (5 / 2)) =
        ["../c/agent_01.md", "../c/agent_02.md"] := by decide +kernel
    exact hfiles ▸ hlists (finite (5 / 2)) (Or.inr hbelow)

end AgentPrompts
