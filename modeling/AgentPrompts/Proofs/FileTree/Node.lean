import AgentPrompts.FileTree.Update

/-! # What stands on a disk

Everything above something that stands on a disk is a directory. An entry without
children that is put into a directory, at a name where no directory stands, changes what
stands there and nothing else.
-/

namespace AgentPrompts.Disk

variable {d : Disk} {l : Location}

theorem node?_eq_directory_iff :
    d.node? l = some .directory ↔ ∃ cs, d.root.get? l = some (.directory cs) := by
  rw [node?]
  cases d.root.get? l with
  | none => simp
  | some e => cases e <;> simp [Entry.node]

theorem node?_of_append {m : Location} (hm : m ≠ []) (h : (d.node? (l ++ m)).isSome) :
    d.node? l = some .directory := by
  rw [node?, Entry.get?_append, Option.isSome_map] at h
  rw [node?]
  obtain ⟨name, m, rfl⟩ := List.exists_cons_of_ne_nil hm
  cases hl : d.root.get? l with
  | none => simp [hl] at h
  | some e =>
    cases e with
    | file content => simp [hl, Entry.get?, Entry.children] at h
    | directory cs => rfl

theorem node?_dropLast (h : d.node? l = some .directory) :
    d.node? l.dropLast = some .directory := by
  rcases List.eq_nil_or_concat l with rfl | ⟨l, name, rfl⟩
  · exact h
  · rw [List.concat_eq_append] at h
    rw [List.concat_eq_append, List.dropLast_concat]
    exact node?_of_append (List.cons_ne_nil name []) (by rw [h]; rfl)

theorem node?_put {name : String} {new : Entry} (hl : d.node? l = some .directory)
    (hn : d.node? (l ++ [name]) ≠ some .directory) (hc : new.children = []) (m : Location) :
    (d.put (l ++ [name]) new).node? m = if m = l ++ [name] then some new.node else d.node? m := by
  obtain ⟨cs, hcs⟩ := node?_eq_directory_iff.mp hl
  by_cases hp : (l ++ [name]).isPrefixOf m
  · obtain ⟨below, rfl⟩ := List.isPrefixOf_iff_prefix.mp hp
    have hnew := Entry.get?_put hcs name new
    cases below with
    | nil => simp [node?, put, hnew]
    | cons first rest =>
      have hold : d.node? (l ++ [name] ++ first :: rest) = none := by
        cases hsome : d.node? (l ++ [name] ++ first :: rest) with
        | none => rfl
        | some n => exact absurd (node?_of_append (List.cons_ne_nil _ _) (by rw [hsome]; rfl)) hn
      have hput : (Entry.put new (l ++ [name]) d.root).get? (l ++ [name] ++ first :: rest) =
          none := by
        rw [Entry.get?_append, hnew]
        simp [Entry.get?, hc]
      have hne : l ++ [name] ++ first :: rest ≠ l ++ [name] := by simp
      rw [if_neg hne, hold, node?, put, hput, Option.map_none]
  · have hne : m ≠ l ++ [name] := by
      rintro rfl
      exact hp (List.isPrefixOf_iff_prefix.mpr List.prefix_rfl)
    rw [if_neg hne]
    exact Entry.node_get?_put hcs new hp

end AgentPrompts.Disk
