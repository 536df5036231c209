import AgentPrompts.FileTree.Access
import AgentPrompts.Proofs.FileTree.Node
import AgentPrompts.Proofs.Path.Walk

/-! # Making directories

Making a directory only adds directories, at stops of its path. When nothing keeps it from
being made, every stop is a directory afterwards, and to make it again changes nothing.
-/

namespace AgentPrompts

open Location

namespace Disk

variable {d d' : Disk} {l : Location} {parts : List String} {path : String}

theorem isName_of_not_blank {part : String} (hb : ¬ (part = "" ∨ part = "."))
    (hd : ¬ part = "..") : IsName part :=
  ⟨fun h => hb (Or.inl h), fun h => hb (Or.inr h), hd⟩

theorem ite_step {α : Type} {part : String} (go : Location → α) (long missing : α)
    (hs : part.utf8ByteSize ≤ maxNameBytes) (h : (d.node? (step l part)).isSome) :
    (if part = "" ∨ part = "." then go l
      else if part = ".." then go l.dropLast
      else if maxNameBytes < part.utf8ByteSize then long
      else if (d.node? (l ++ [part])).isNone then missing
      else go (l ++ [part])) = go (step l part) := by
  by_cases hb : part = "" ∨ part = "."
  · rw [if_pos hb, step_of_blank hb]
  by_cases hd : part = ".."
  · rw [if_neg hb, if_pos hd, hd, step_dots]
  · rw [step_of_isName (isName_of_not_blank hb hd)] at h ⊢
    have hsome : ¬ (d.node? (l ++ [part])).isNone := by simpa [Option.isSome_iff_ne_none] using h
    rw [if_neg hb, if_neg hd, if_neg (by omega), if_neg hsome]

theorem follow_of_stops (h : ∀ m ∈ stops l parts, d.node? m = some .directory)
    (hs : ∀ part ∈ parts, part.utf8ByteSize ≤ maxNameBytes) :
    d.follow l parts = .ok (walk l parts) := by
  induction parts generalizing l with
  | nil => rfl
  | cons part parts ih =>
    obtain ⟨hl, hrest⟩ := forall_mem_stops_cons.mp h
    obtain ⟨hsize, hs⟩ := List.forall_mem_cons.mp hs
    have hnext := hrest _ (start_mem_stops _ parts)
    rw [walk_cons, ← ih hrest hs]
    simp only [follow, hl]
    exact ite_step (d.follow · parts) _ _ hsize (by rw [hnext]; rfl)

theorem follow_append (l : Location) (parts rest : List String) :
    d.follow l (parts ++ rest) = (d.follow l parts).bind fun m => d.follow m rest := by
  fun_induction follow d l parts with
  | case1 => rfl
  | _ => grind [follow, Except.bind]

/-- A disk on which directories were made at some of the given locations, and nothing else
was changed. -/
structure Grown (ls : List Location) (d d' : Disk) : Prop where
  workingDirectory : d'.workingDirectory = d.workingDirectory
  node : ∀ m, d'.node? m = d.node? m ∨
    m ∈ ls ∧ d.node? m = none ∧ d'.node? m = some .directory

theorem Grown.refl (ls : List Location) (d : Disk) : Grown ls d d := ⟨rfl, fun _ => Or.inl rfl⟩

theorem Grown.mono {ls ms : List Location} (g : Grown ls d d') (h : ls ⊆ ms) : Grown ms d d' where
  workingDirectory := g.workingDirectory
  node m := (g.node m).imp_right fun ⟨hm, hd⟩ => ⟨h hm, hd⟩

theorem Grown.trans {ls : List Location} {d'' : Disk} (g : Grown ls d d') (g' : Grown ls d' d'') :
    Grown ls d d'' where
  workingDirectory := g'.workingDirectory.trans g.workingDirectory
  node m := by
    rcases g'.node m with h' | ⟨hm, h', h''⟩
    · rw [h']
      exact g.node m
    · rcases g.node m with h | ⟨_, _, h⟩
      · exact Or.inr ⟨hm, h ▸ h', h''⟩
      · rw [h] at h'; cases h'

theorem Grown.kept {ls : List Location} (g : Grown ls d d') {m : Location} {n : Node}
    (h : d.node? m = some n) : d'.node? m = some n := by
  rcases g.node m with h' | ⟨_, h', _⟩
  · rw [h', h]
  · rw [h] at h'; cases h'

theorem grown_put_directory {name : String} (hl : d.node? l = some .directory)
    (hn : d.node? (l ++ [name]) = none) :
    Grown [l ++ [name]] d (d.put (l ++ [name]) (.directory [])) where
  workingDirectory := rfl
  node m := by
    rw [node?_put hl (by simp [hn]) rfl]
    split
    next h => exact Or.inr ⟨h ▸ List.mem_cons_self, h ▸ hn, rfl⟩
    next => exact Or.inl rfl

/-- At a part the making ends, or it goes on from a directory, after making the directory
that the part names if there is none. -/
theorem makeAlong_cases (d : Disk) (l : Location) (part : String) (parts : List String) :
    (∃ o, d.makeAlong l (part :: parts) = (d, some o)) ∨
    d.node? l = some .directory ∧ part.utf8ByteSize ≤ maxNameBytes ∧
      (d.makeAlong l (part :: parts) = d.makeAlong (step l part) parts ∨
      IsName part ∧ d.node? (l ++ [part]) = none ∧
        d.makeAlong l (part :: parts) =
          (d.put (l ++ [part]) (.directory [])).makeAlong (l ++ [part]) parts) := by
  simp only [makeAlong]
  split
  next => exact Or.inl ⟨_, rfl⟩
  next => exact Or.inl ⟨_, rfl⟩
  next hl =>
    split
    next hb =>
      have hsize : part.utf8ByteSize ≤ maxNameBytes := by rcases hb with rfl | rfl <;> decide
      exact Or.inr ⟨hl, hsize, Or.inl (by rw [step_of_blank hb])⟩
    next hb =>
    split
    next hd =>
      subst hd
      exact Or.inr ⟨hl, by decide, Or.inl (by rw [step_dots])⟩
    next hd =>
    have hn := isName_of_not_blank hb hd
    split
    next => exact Or.inl ⟨_, rfl⟩
    next hs =>
    split
    next hnone => exact Or.inr ⟨hl, by omega, Or.inr ⟨hn, by simpa using hnone, rfl⟩⟩
    next => exact Or.inr ⟨hl, by omega, Or.inl (by rw [step_of_isName hn])⟩

/-- Making directories adds directories at stops, also when it fails on the way. -/
theorem makeAlong_grown (d : Disk) (l : Location) (parts : List String) :
    Grown (stops l parts) d (d.makeAlong l parts).1 := by
  induction parts generalizing d l with
  | nil =>
    have he : (d.makeAlong l []).1 = d := by
      simp only [makeAlong]
      split <;> rfl
    rw [he]
    exact Grown.refl _ d
  | cons part parts ih =>
    have hsub : stops (step l part) parts ⊆ stops l (part :: parts) :=
      fun m hm => mem_stops_cons.mpr (Or.inr hm)
    rcases makeAlong_cases d l part parts with ⟨o, he⟩ | ⟨hl, _, he | ⟨hn, hnone, he⟩⟩
    · rw [he]
      exact Grown.refl _ d
    · rw [he]
      exact (ih d (step l part)).mono hsub
    · rw [he]
      rw [step_of_isName hn] at hsub
      have hmade := (grown_put_directory hl hnone).mono
        (List.cons_subset.mpr ⟨hsub (start_mem_stops _ parts), List.nil_subset _⟩)
      exact hmade.trans ((ih _ (l ++ [part])).mono hsub)

/-- When nothing is in the way, every stop is a directory in the end. -/
theorem stops_of_makeAlong (h : d.makeAlong l parts = (d', none)) :
    (∀ m ∈ stops l parts, d'.node? m = some .directory) ∧
      ∀ part ∈ parts, part.utf8ByteSize ≤ maxNameBytes := by
  induction parts generalizing d l with
  | nil =>
    simp only [makeAlong] at h
    split at h
    next hl =>
      obtain ⟨rfl, _⟩ := Prod.mk.inj h
      exact ⟨fun m hm => mem_stops_nil.mp hm ▸ hl, by simp⟩
    next => cases h
    next => cases h
  | cons part parts ih =>
    have hgrown := makeAlong_grown d l (part :: parts)
    rw [h] at hgrown
    rcases makeAlong_cases d l part parts with ⟨o, he⟩ | ⟨hl, hsize, hgo⟩
    · simp [he] at h
    · have hrest : (∀ m ∈ stops (step l part) parts, d'.node? m = some .directory) ∧
          ∀ p ∈ parts, p.utf8ByteSize ≤ maxNameBytes := by
        rcases hgo with he | ⟨hn, _, he⟩
        · exact ih (he ▸ h)
        · rw [step_of_isName hn]
          exact ih (he ▸ h)
      refine ⟨?_, List.forall_mem_cons.mpr ⟨hsize, hrest.2⟩⟩
      exact forall_mem_stops_cons.mpr ⟨hgrown.kept hl, hrest.1⟩

theorem makeAlong_of_stops (h : ∀ m ∈ stops l parts, d.node? m = some .directory)
    (hs : ∀ part ∈ parts, part.utf8ByteSize ≤ maxNameBytes) :
    d.makeAlong l parts = (d, none) := by
  induction parts generalizing l with
  | nil => simp [makeAlong, h l (start_mem_stops l [])]
  | cons part parts ih =>
    obtain ⟨hl, hrest⟩ := forall_mem_stops_cons.mp h
    obtain ⟨hsize, hs⟩ := List.forall_mem_cons.mp hs
    have hnext := hrest _ (start_mem_stops _ parts)
    rw [← ih hrest hs]
    simp only [makeAlong, hl]
    exact ite_step (d.makeAlong · parts) _ _ hsize (by rw [hnext]; rfl)

end Disk

end AgentPrompts
