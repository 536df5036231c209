import AgentPrompts.Generation
import AgentPrompts.Proofs.FileTree.Leads
import AgentPrompts.Proofs.Prompt.FileName

/-! # Places of prompt files

The prompt file of an agent stands in the directory to which the output directory leads.
What keeps it from being written is the length of its path or a directory in its place,
and writing other prompt files changes neither.
-/

namespace AgentPrompts.Generation

open Disk Number

def place (d : Disk) (outDir : String) (agent : Nat) : Location :=
  d.target outDir ++ [promptFileName (.ofNat agent)]

/-- What keeps the prompt file of an agent from being written. -/
def blocked? (d : Disk) (outDir : String) (agent : Nat) : Option AccessError :=
  let path := promptFilePath outDir (.ofNat agent)
  if maxPathBytes < path.utf8ByteSize then some (.fault .nameTooLong "open" path)
  else if d.node? (place d outDir agent) = some .directory then
    some (.fault .isDirectory "open" path)
  else none

def promptBytes (template : String) (agent : Nat) : List UInt8 :=
  Utf8.encode (renderPrompt template (.ofNat agent))

variable {d d' : Disk} {template outDir : String} {a b : Nat}

theorem place_inj (ha : a < exactBound) (hb : b < exactBound)
    (h : place d outDir a = place d outDir b) : a = b := by
  have hn := List.append_cancel_left h
  exact promptFileName_inj ha hb (List.head_eq_of_cons_eq hn)

structure SameDirectories (d d' : Disk) : Prop where
  workingDirectory : d'.workingDirectory = d.workingDirectory
  directory : ∀ l, d'.node? l = some .directory ↔ d.node? l = some .directory

namespace SameDirectories

theorem refl (d : Disk) : SameDirectories d d := ⟨rfl, fun _ => Iff.rfl⟩

theorem trans {d'' : Disk} (h : SameDirectories d d') (h' : SameDirectories d' d'') :
    SameDirectories d d'' where
  workingDirectory := h'.workingDirectory.trans h.workingDirectory
  directory l := (h'.directory l).trans (h.directory l)

theorem leads (h : SameDirectories d d') (hl : d.Leads outDir) : d'.Leads outDir :=
  hl.mono h.workingDirectory fun m hm => (h.directory m).mpr hm

theorem place (h : SameDirectories d d') : place d' outDir a = place d outDir a := by
  rw [Generation.place, Generation.place, target_eq h.workingDirectory]

theorem blocked? (h : SameDirectories d d') : blocked? d' outDir a = blocked? d outDir a := by
  simp only [Generation.blocked?, h.place, h.directory]

end SameDirectories

theorem blocked?_of_long (h : maxPathBytes < (promptFilePath outDir (.ofNat a)).utf8ByteSize) :
    blocked? d outDir a =
      some (.fault .nameTooLong "open" (promptFilePath outDir (.ofNat a))) := by
  rw [blocked?, if_pos h]

theorem blocked?_of_directory
    (h : ¬ maxPathBytes < (promptFilePath outDir (.ofNat a)).utf8ByteSize)
    (hd : d.node? (place d outDir a) = some .directory) :
    blocked? d outDir a =
      some (.fault .isDirectory "open" (promptFilePath outDir (.ofNat a))) := by
  rw [blocked?, if_neg h, if_pos hd]

theorem blocked?_eq_none_iff : blocked? d outDir a = none ↔
    (promptFilePath outDir (.ofNat a)).utf8ByteSize ≤ maxPathBytes ∧
      d.node? (place d outDir a) ≠ some .directory := by
  by_cases h : maxPathBytes < (promptFilePath outDir (.ofNat a)).utf8ByteSize
  · rw [blocked?_of_long h]
    simp [Nat.not_le.mpr h]
  by_cases hd : d.node? (place d outDir a) = some .directory
  · rw [blocked?_of_directory h hd]
    simp [hd]
  · rw [blocked?, if_neg h, if_neg hd]
    simp [Nat.not_lt.mp h, hd]

section Leading

variable (h : d.Leads outDir) (ha : a < exactBound)
include h ha

theorem writeFile_promptFilePath (content : List UInt8) :
    d.writeFile (promptFilePath outDir (.ofNat a)) content =
      match blocked? d outDir a with
      | some e => .error e
      | none => .ok (d.put (place d outDir a) (.file content)) := by
  have hs := not_mem_promptFileName ha (c := '/') (by decide) (by decide) (by decide)
  have hnul := not_mem_promptFileName ha (c := '\x00') (by decide) (by decide) (by decide)
  have hsize := utf8ByteSize_promptFileName_le ha
  have hlocate := h.locateNew_joinPath (isName_promptFileName _) hs hsize
  have hpath : holdsNul (promptFilePath outDir (.ofNat a)) = false :=
    holdsNul_joinPath h.noNul hnul
  rw [← promptFilePath, ← place] at hlocate
  rw [writeFile, hpath, if_neg Bool.false_ne_true]
  by_cases hlong : maxPathBytes < (promptFilePath outDir (.ofNat a)).utf8ByteSize
  · rw [if_pos hlong] at hlocate
    simp only [hlocate, blocked?_of_long hlong]
  rw [if_neg hlong] at hlocate
  by_cases hd : d.node? (place d outDir a) = some .directory
  · rw [if_pos hd] at hlocate
    simp only [hlocate, blocked?_of_directory hlong hd]
  · rw [if_neg hd] at hlocate
    simp only [hlocate, blocked?_eq_none_iff.mpr ⟨by omega, hd⟩]

theorem readFile_promptFilePath {content : List UInt8}
    (hsize : (promptFilePath outDir (.ofNat a)).utf8ByteSize ≤ maxPathBytes)
    (hfile : d.node? (place d outDir a) = some (.file content)) :
    d.locate (promptFilePath outDir (.ofNat a)) = .ok (place d outDir a) ∧
      d.readFile (promptFilePath outDir (.ofNat a)) = .ok content := by
  have hs := not_mem_promptFileName ha (c := '/') (by decide) (by decide) (by decide)
  have hnul := not_mem_promptFileName ha (c := '\x00') (by decide) (by decide) (by decide)
  have hlocate := h.locate_joinPath (isName_promptFileName _) hs
    (utf8ByteSize_promptFileName_le ha) hsize (by rw [← place, hfile]; rfl)
  refine ⟨hlocate, ?_⟩
  have hstat : d.stat (promptFilePath outDir (.ofNat a)) = .ok (.file content) := by
    rw [← promptFilePath, ← place] at hlocate
    rw [stat, promptFilePath, holdsNul_joinPath h.noNul hnul, if_neg Bool.false_ne_true,
      ← promptFilePath, hlocate]
    simp only [hfile]
  rw [readFile, hstat]

end Leading

end AgentPrompts.Generation
