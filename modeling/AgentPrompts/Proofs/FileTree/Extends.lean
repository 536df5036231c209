import AgentPrompts.Proofs.FileTree.Leads

/-! # Disks that keep what stood on them

A disk extends another when every directory of it is still a directory and every file is
still a file, perhaps with another content. A path that could be followed then leads to
the same place.
-/

namespace AgentPrompts.Disk

open Location

variable {d d' d'' : Disk} {l m : Location} {path : String}

theorem follow_cons_eq_ok_iff {part : String} {parts : List String} :
    d.follow l (part :: parts) = .ok m ↔ d.node? l = some .directory ∧
      part.utf8ByteSize ≤ maxNameBytes ∧ (d.node? (step l part)).isSome ∧
      d.follow (step l part) parts = .ok m := by
  constructor
  · intro hf
    rw [follow] at hf
    split at hf
    next => cases hf
    next => cases hf
    next hl =>
    refine ⟨hl, ?_⟩
    split at hf
    next hb =>
      rw [step_of_blank hb, hl]
      refine ⟨?_, rfl, hf⟩
      rcases hb with rfl | rfl <;> decide
    next hb =>
    split at hf
    next hd =>
      subst hd
      rw [step_dots, node?_dropLast hl]
      exact ⟨by decide, rfl, hf⟩
    next hd =>
    rw [step_of_isName (isName_of_not_blank hb hd)]
    split at hf
    next => cases hf
    next hs =>
    split at hf
    next => cases hf
    next hn => exact ⟨Nat.not_lt.mp hs, by simpa [Option.isSome_iff_ne_none] using hn, hf⟩
  · rintro ⟨hl, hsize, hnext, hrest⟩
    rw [follow, hl, ← hrest]
    exact ite_step (d.follow · parts) _ _ hsize hnext

/-- A disk on which everything that stood before still stands, of the same kind. -/
structure Extends (d d' : Disk) : Prop where
  workingDirectory : d'.workingDirectory = d.workingDirectory
  directory : ∀ l, d.node? l = some .directory → d'.node? l = some .directory
  file : ∀ l content, d.node? l = some (.file content) →
    ∃ content', d'.node? l = some (.file content')

namespace Extends

theorem refl (d : Disk) : Extends d d := ⟨rfl, fun _ h => h, fun _ content h => ⟨content, h⟩⟩

theorem trans (h : Extends d d') (h' : Extends d' d'') : Extends d d'' where
  workingDirectory := h'.workingDirectory.trans h.workingDirectory
  directory l hl := h'.directory l (h.directory l hl)
  file l content hl := by
    obtain ⟨content', hl'⟩ := h.file l content hl
    exact h'.file l content' hl'

theorem leads (h : Extends d d') (hl : d.Leads path) : d'.Leads path :=
  hl.mono h.workingDirectory h.directory

theorem isSome (h : Extends d d') (hl : (d.node? l).isSome) : (d'.node? l).isSome := by
  obtain ⟨node, hnode⟩ := Option.isSome_iff_exists.mp hl
  cases node with
  | directory => rw [h.directory l hnode]; rfl
  | file content =>
    obtain ⟨content', hfile⟩ := h.file l content hnode
    rw [hfile]
    rfl

theorem follow (h : Extends d d') {parts : List String} (hf : d.follow l parts = .ok m) :
    d'.follow l parts = .ok m := by
  induction parts generalizing l with
  | nil => exact hf
  | cons part parts ih =>
    obtain ⟨hl, hsize, hnext, hrest⟩ := follow_cons_eq_ok_iff.mp hf
    exact follow_cons_eq_ok_iff.mpr ⟨h.directory l hl, hsize, h.isSome hnext, ih hrest⟩

theorem locate (h : Extends d d') (hl : d.locate path = .ok l) : d'.locate path = .ok l := by
  rw [Disk.locate] at hl ⊢
  split at hl
  next => cases hl
  next =>
    rw [start_eq h.workingDirectory]
    exact h.follow hl

end Extends

theorem Grown.extends {ls : List Location} (g : Grown ls d d') : Extends d d' where
  workingDirectory := g.workingDirectory
  directory _ hl := g.kept hl
  file _ content hl := ⟨content, g.kept hl⟩

theorem stat_eq_ok_iff {node : Node} : d.stat path = .ok node ↔
    holdsNul path = false ∧ ∃ l, d.locate path = .ok l ∧ d.node? l = some node := by
  rw [stat]
  split
  next hnul => simp [hnul]
  next hnul =>
    cases hl : d.locate path with
    | error f => simp
    | ok l => cases hn : d.node? l <;> simp_all

end AgentPrompts.Disk
