import AgentPrompts.Proofs.FileTree.Making

/-! # Paths that lead to a directory

A path leads to a directory when every location on its way is one. A directory that could
be made has such a path. A file in it is reached through the normal form of that path, at
its name in the directory to which the path leads.
-/

namespace AgentPrompts

open Location

namespace Disk

def target (d : Disk) (path : String) : Location := walk (d.start path) (pathParts path)

/-- A path that can be used and passes only through directories. -/
structure Leads (d : Disk) (path : String) : Prop where
  noNul : holdsNul path = false
  usable : pathFault? path = none
  stops : ∀ m ∈ stops (d.start path) (pathParts path), d.node? m = some .directory
  short : ∀ part ∈ pathParts path, part.utf8ByteSize ≤ maxNameBytes

variable {d d' : Disk} {path : String}

theorem start_eq (h : d'.workingDirectory = d.workingDirectory) (path : String) :
    d'.start path = d.start path := by
  rw [start, start, h]

theorem target_eq (h : d'.workingDirectory = d.workingDirectory) (path : String) :
    d'.target path = d.target path := by
  rw [target, target, start_eq h]

theorem makeDirectory_grown (d : Disk) (path : String) :
    Grown (stops (d.start path) (pathParts path)) d (d.makeDirectory path).1 := by
  rw [makeDirectory]
  split
  next => exact Grown.refl _ d
  next =>
    split
    next => exact Grown.refl _ d
    next =>
      have hg := makeAlong_grown d (d.start path) (pathParts path)
      split <;> simp_all

theorem makeDirectory_inv (h : (d.makeDirectory path).2 = none) :
    holdsNul path = false ∧ pathFault? path = none ∧
      d.makeAlong (d.start path) (pathParts path) = ((d.makeDirectory path).1, none) := by
  rw [makeDirectory] at h ⊢
  split at h
  next => cases h
  next hnul =>
    rw [if_neg hnul]
    split at h
    next => cases h
    next hfault =>
      split at h
      next hmake => exact ⟨by simpa using hnul, hfault, hmake⟩
      next => cases h

theorem leads_of_makeDirectory (h : (d.makeDirectory path).2 = none) :
    (d.makeDirectory path).1.Leads path := by
  obtain ⟨hnul, hfault, hmake⟩ := makeDirectory_inv h
  obtain ⟨hstops, hshort⟩ := stops_of_makeAlong hmake
  have hw := (makeDirectory_grown d path).workingDirectory
  exact ⟨hnul, hfault, by rwa [start_eq hw], hshort⟩

theorem makeDirectory_of_leads (h : d.Leads path) : d.makeDirectory path = (d, none) := by
  simp [makeDirectory, h.noNul, h.usable, makeAlong_of_stops h.stops h.short]

namespace Leads

theorem mono (h : d.Leads path) (hw : d'.workingDirectory = d.workingDirectory)
    (hd : ∀ m, d.node? m = some .directory → d'.node? m = some .directory) : d'.Leads path where
  noNul := h.noNul
  usable := h.usable
  stops m hm := hd m (h.stops m (start_eq hw path ▸ hm))
  short := h.short

theorem node?_target (h : d.Leads path) : d.node? (d.target path) = some .directory :=
  h.stops _ (walk_mem_stops _ _)

theorem locate (h : d.Leads path) : d.locate path = .ok (d.target path) := by
  rw [Disk.locate, h.usable]
  exact follow_of_stops h.stops h.short

end Leads

theorem start_absolute (h : isAbsolutePath path) : d.start path = [] := by
  rw [start, if_pos h]

/-- The parts of a normal form are followed to the place to which the path leads. -/
theorem Leads.follow_normal (h : d.Leads path) :
    d.follow (d.start path)
      ((if isAbsolutePath path then [""] else []) ++ (Path.ofString path).parts) =
      .ok (d.target path) := by
  have hsub := stops_ofString_subset (s := path) (start_absolute (d := d))
  have hwalk := walk_ofString (s := path) (start_absolute (d := d))
  have hshort : ∀ part ∈ (Path.ofString path).parts, part.utf8ByteSize ≤ maxNameBytes := by
    intro part hp
    rcases Path.mem_parts_ofString hp with rfl | ⟨_, hp⟩
    · decide
    · exact h.short part hp
  have hnormal := follow_of_stops (fun m hm => h.stops m (hsub hm)) hshort
  rw [hwalk] at hnormal
  rw [target]
  split
  next =>
    have hstart := h.stops _ (start_mem_stops _ _)
    rw [List.singleton_append, follow, hstart]
    simpa using hnormal
  next => simpa using hnormal

section Child

variable {directory name : String}

theorem joinPath_ne_empty (hn : IsName name) (hs : '/' ∉ name.toList) :
    joinPath directory name ≠ "" := by
  intro he
  have hparts := pathParts_joinPath directory hs
  have hempty : pathParts "" = [""] := by decide
  rw [he, hempty, ← List.append_assoc] at hparts
  have hlast := congrArg List.getLast? hparts
  rw [List.getLast?_concat] at hlast
  exact hn.1 (by simpa using hlast.symm)

theorem pathFault?_joinPath (hn : IsName name) (hs : '/' ∉ name.toList) :
    pathFault? (joinPath directory name) =
      if maxPathBytes < (joinPath directory name).utf8ByteSize then some .nameTooLong
      else none := by
  rw [pathFault?, if_neg (joinPath_ne_empty hn hs)]

theorem holdsNul_joinPath (h : holdsNul directory = false) (hn : '\x00' ∉ name.toList) :
    holdsNul (joinPath directory name) = false := by
  simp only [holdsNul, List.contains_eq_mem, decide_eq_false_iff_not] at h ⊢
  intro hm
  rcases mem_toList_joinPath directory hm with hc | hc | hc | hc
  · exact absurd hc (by decide)
  · exact absurd hc (by decide)
  · exact h hc
  · exact hn hc

variable (h : d.Leads directory) (hn : IsName name) (hs : '/' ∉ name.toList)
include h hn hs

theorem Leads.locateNew_joinPath (hsize : name.utf8ByteSize ≤ maxNameBytes) :
    d.locateNew (joinPath directory name) =
      if maxPathBytes < (joinPath directory name).utf8ByteSize then .error .nameTooLong
      else if d.node? (d.target directory ++ [name]) = some .directory then .error .isDirectory
      else .ok (d.target directory ++ [name]) := by
  have hstart : d.start (joinPath directory name) = d.start directory := by
    rw [start, start, isAbsolutePath_joinPath directory hn hs]
  have hrev : (pathParts (joinPath directory name)).reverse = name ::
      ((if isAbsolutePath directory then [""] else []) ++
        (Path.ofString directory).parts).reverse := by
    rw [pathParts_joinPath directory hs, ← List.append_assoc, List.reverse_append]
    rfl
  have hblank : ¬ (name = "" ∨ name = "." ∨ name = "..") := by
    obtain ⟨h₁, h₂, h₃⟩ := hn
    tauto
  rw [locateNew, pathFault?_joinPath hn hs, hrev]
  by_cases hlong : maxPathBytes < (joinPath directory name).utf8ByteSize
  · rw [if_pos hlong, if_pos hlong]
  · rw [if_neg hlong, if_neg hlong]
    simp only [List.reverse_reverse, hstart, h.follow_normal, if_neg hblank, h.node?_target]
    rw [if_neg (by omega)]

theorem Leads.locate_joinPath (hsize : name.utf8ByteSize ≤ maxNameBytes)
    (hlong : (joinPath directory name).utf8ByteSize ≤ maxPathBytes)
    (hsome : (d.node? (d.target directory ++ [name])).isSome) :
    d.locate (joinPath directory name) = .ok (d.target directory ++ [name]) := by
  have hstart : d.start (joinPath directory name) = d.start directory := by
    rw [start, start, isAbsolutePath_joinPath directory hn hs]
  rw [Disk.locate, pathFault?_joinPath hn hs, if_neg (by omega), pathParts_joinPath directory hs,
    ← List.append_assoc]
  simp only [hstart, follow_append, h.follow_normal, Except.bind]
  have hstep := step_of_isName (l := d.target directory) hn
  rw [follow, h.node?_target]
  refine (ite_step (d.follow · []) _ _ hsize (by rwa [hstep])).trans ?_
  rw [hstep, follow]

end Child

end Disk

end AgentPrompts
