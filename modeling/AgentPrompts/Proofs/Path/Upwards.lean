import AgentPrompts.Proofs.Path.Walk
import AgentPrompts.Proofs.Text.Utf8

/-! # Paths that only go up

A path of two dots for each of its parts is in normal form. It leads from a location of
as many names to the root, and takes more bytes than the names it undoes.
-/

namespace AgentPrompts

open Location

def upwards (n : Nat) : String := String.intercalate "/" (List.replicate n "..")

theorem pathParts_upwards (n : Nat) :
    pathParts (upwards (n + 1)) = List.replicate (n + 1) ".." := by
  refine pathParts_intercalate (by simp) fun part hp => ?_
  rw [List.eq_of_mem_replicate hp]
  decide

theorem isAbsolutePath_upwards (n : Nat) : isAbsolutePath (upwards (n + 1)) = false := by
  have ht : (⟨false, List.replicate (n + 1) ".."⟩ : Path).text = upwards (n + 1) := by
    simp [Path.text, upwards]
  rw [← ht]
  exact Path.isAbsolutePath_text (List.replicate_succ) (by decide) (by decide)

theorem parts_upwards (n : Nat) :
    (Path.ofString (upwards (n + 1))).parts = List.replicate (n + 1) ".." := by
  have h := Path.foldl_push_dots 0 (n + 1)
  simp only [List.replicate_zero, Nat.zero_add] at h
  simp only [Path.ofString, isAbsolutePath_upwards, pathParts_upwards, h, List.reverse_replicate]

theorem sum_utf8ByteSize_dots (n : Nat) :
    ((List.replicate n "..").map fun part => part.utf8ByteSize + 1).sum = n * 3 := by
  have hdots : (".." : String).utf8ByteSize = 2 := by decide
  rw [List.map_replicate, List.sum_replicate_nat, hdots]

theorem utf8ByteSize_upwards (n : Nat) : (upwards (n + 1)).utf8ByteSize = 3 * n + 2 := by
  have h := Utf8.utf8ByteSize_intercalate (List.replicate (n + 1) "..") (by simp)
  rw [sum_utf8ByteSize_dots] at h
  rw [upwards]
  omega

theorem utf8ByteSize_joinPath_upwards (n : Nat) (name : String) :
    (joinPath (upwards (n + 1)) name).utf8ByteSize = 3 * n + 3 + name.utf8ByteSize := by
  have hpath : joinPath (upwards (n + 1)) name =
      String.intercalate "/" (List.replicate (n + 1) ".." ++ [name]) := by
    have habs : (Path.ofString (upwards (n + 1))).absolute = false := isAbsolutePath_upwards n
    simp [joinPath, Path.child, Path.text, parts_upwards, habs]
  have h := Utf8.utf8ByteSize_intercalate (List.replicate (n + 1) ".." ++ [name]) (by simp)
  rw [List.map_append, List.sum_append, sum_utf8ByteSize_dots, List.map_singleton,
    List.sum_singleton] at h
  rw [hpath]
  omega

theorem forall_mem_stops_dots {D : Location → Prop} (hup : ∀ l, D l → D l.dropLast)
    {l : Location} (h : D l) (n : Nat) : ∀ m ∈ stops l (List.replicate n ".."), D m := by
  induction n generalizing l with
  | zero =>
    intro m hm
    rwa [mem_stops_nil.mp hm]
  | succ n ih =>
    rw [List.replicate_succ, forall_mem_stops_cons, step_dots]
    exact ⟨h, ih (hup l h)⟩

theorem walk_replicate_dots (l : Location) :
    walk l (List.replicate l.length "..") = [] := by
  induction h : l.length generalizing l with
  | zero => exact List.eq_nil_of_length_eq_zero h
  | succ n ih =>
    rw [List.replicate_succ, walk_cons, step_dots]
    exact ih l.dropLast (by rw [List.length_dropLast, h, Nat.add_sub_cancel])

end AgentPrompts
