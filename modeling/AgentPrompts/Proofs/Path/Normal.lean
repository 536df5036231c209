import Mathlib.Tactic.Tauto
import AgentPrompts.Path

/-! # Normal forms of paths

The parts of a normal form are names of the path and pairs of dots. A text that joins
parts by slashes is cut into the same parts again, behind an empty one when it is
absolute, so the parts of a prompt file's path are known from those of its directory.
-/

namespace AgentPrompts

/-- Whether a part of a path names a child of a directory. -/
def IsName (part : String) : Prop := part ≠ "" ∧ part ≠ "." ∧ part ≠ ".."

theorem mem_splitOn {x : Char} {cs piece : List Char} (h : piece ∈ cs.splitOn x) :
    x ∉ piece ∧ piece ⊆ cs := by
  induction cs generalizing piece with
  | nil =>
    obtain rfl : piece = [] := by simpa using h
    simp
  | cons c cs ih =>
    rw [List.splitOn_cons_eq_if_modifyHead] at h
    split at h
    · rcases List.mem_cons.mp h with rfl | h
      · simp
      · exact ⟨(ih h).1, List.subset_cons_of_subset c (ih h).2⟩
    · cases hs : cs.splitOn x with
      | nil => simp [hs] at h
      | cons first rest =>
        have hc : ¬ c = x := by simpa using ‹¬ (c == x) = true›
        rw [hs, List.modifyHead_cons] at h
        rcases List.mem_cons.mp h with rfl | h
        · obtain ⟨hx, hsub⟩ := ih (hs ▸ List.mem_cons_self)
          refine ⟨?_, List.cons_subset_cons c hsub⟩
          rw [List.mem_cons]
          rintro (rfl | hm)
          · exact hc rfl
          · exact hx hm
        · obtain ⟨hx, hsub⟩ := ih (hs ▸ List.mem_cons_of_mem first h)
          exact ⟨hx, List.subset_cons_of_subset c hsub⟩

theorem not_slash_of_mem_pathParts {s part : String} (h : part ∈ pathParts s) :
    '/' ∉ part.toList := by
  obtain ⟨cs, hcs, rfl⟩ := List.mem_map.mp h
  rw [String.toList_ofList]
  exact (mem_splitOn hcs).1

theorem subset_of_mem_pathParts {s part : String} (h : part ∈ pathParts s) :
    part.toList ⊆ s.toList := by
  obtain ⟨cs, hcs, rfl⟩ := List.mem_map.mp h
  rw [String.toList_ofList]
  exact (mem_splitOn hcs).2

theorem pathParts_intercalate {parts : List String} (hne : parts ≠ [])
    (h : ∀ part ∈ parts, '/' ∉ part.toList) :
    pathParts (String.intercalate "/" parts) = parts := by
  have hs : ∀ cs ∈ parts.map String.toList, '/' ∉ cs := by
    intro cs hcs
    obtain ⟨part, hp, rfl⟩ := List.mem_map.mp hcs
    exact h part hp
  have hsep : ("/" : String).toList = ['/'] := by decide
  rw [pathParts, String.toList_intercalate, hsep, List.splitOn_intercalate '/' hs (by simpa),
    List.map_map]
  simp [Function.comp_def]

theorem pathParts_slash_append (s : String) : pathParts ("/" ++ s) = "" :: pathParts s := by
  have hsep : ("/" : String).toList = ['/'] := by decide
  rw [pathParts, String.toList_append, hsep, List.singleton_append,
    List.splitOn_cons_eq_if_modifyHead]
  simp [pathParts]

namespace Path

variable {absolute : Bool} {stack : List String} {part : String}

theorem push_of_blank (h : part = "" ∨ part = ".") : push absolute stack part = stack := by
  simp [push, h]

theorem push_of_isName (h : IsName part) : push absolute stack part = part :: stack := by
  obtain ⟨h₁, h₂, h₃⟩ := h
  simp [push, h₁, h₂, h₃]

/-- What two dots do to normal parts: they leave nothing above the root, stay above the
start of a relative path, or undo a name. -/
theorem push_dots (absolute : Bool) (stack : List String) :
    (stack = [] ∧ absolute ∧ push absolute stack ".." = []) ∨
    ((stack = [] ∧ ¬ absolute ∨ ∃ rest, stack = ".." :: rest) ∧
      push absolute stack ".." = ".." :: stack) ∨
    ∃ last rest, stack = last :: rest ∧ last ≠ ".." ∧ push absolute stack ".." = rest := by
  cases stack with
  | nil => cases absolute <;> simp [push]
  | cons last rest =>
    by_cases h : last = ".."
    · simp [push, h]
    · exact Or.inr (Or.inr ⟨last, rest, rfl, h, by simp [push, h]⟩)

theorem foldl_push_dots (k n : Nat) :
    (List.replicate n "..").foldl (push false) (List.replicate k "..") =
      List.replicate (k + n) ".." := by
  induction n generalizing k with
  | zero => rfl
  | succ n ih =>
    have hpush : push false (List.replicate k "..") ".." = List.replicate (k + 1) ".." := by
      cases k <;> simp [push, List.replicate_succ]
    rw [List.replicate_succ, List.foldl_cons, hpush, ih]
    congr 1
    omega

theorem part_cases (part : String) : (part = "" ∨ part = ".") ∨ part = ".." ∨ IsName part := by
  unfold IsName; tauto

theorem mem_push {p : String} (h : p ∈ push absolute stack part) :
    p ∈ stack ∨ p = ".." ∨ IsName p ∧ p = part := by
  rcases part_cases part with hb | rfl | hn
  · rw [push_of_blank hb] at h
    exact Or.inl h
  · rcases push_dots absolute stack with ⟨_, _, he⟩ | ⟨_, he⟩ | ⟨last, rest, rfl, _, he⟩
    · simp [he] at h
    · rw [he, List.mem_cons] at h
      tauto
    · exact Or.inl (List.mem_cons_of_mem last (he ▸ h))
  · rw [push_of_isName hn] at h
    rcases List.mem_cons.mp h with rfl | h
    · exact Or.inr (Or.inr ⟨hn, rfl⟩)
    · exact Or.inl h

theorem mem_foldl_push {p : String} {parts : List String}
    (h : p ∈ parts.foldl (push absolute) stack) :
    p ∈ stack ∨ p = ".." ∨ IsName p ∧ p ∈ parts := by
  induction parts generalizing stack with
  | nil => exact Or.inl h
  | cons part parts ih =>
    rcases ih h with h | h | ⟨hn, h⟩
    · rcases mem_push h with h | h | ⟨hn, rfl⟩
      · exact Or.inl h
      · exact Or.inr (Or.inl h)
      · exact Or.inr (Or.inr ⟨hn, List.mem_cons_self⟩)
    · exact Or.inr (Or.inl h)
    · exact Or.inr (Or.inr ⟨hn, List.mem_cons_of_mem _ h⟩)

theorem mem_parts_ofString {s p : String} (h : p ∈ (ofString s).parts) :
    p = ".." ∨ IsName p ∧ p ∈ pathParts s := by
  rw [ofString, List.mem_reverse] at h
  rcases mem_foldl_push h with h | h
  · simp at h
  · exact h

theorem pathParts_text {p : Path} (hne : p.parts ≠ [])
    (h : ∀ part ∈ p.parts, '/' ∉ part.toList) :
    pathParts p.text = (if p.absolute then [""] else []) ++ p.parts := by
  cases ha : p.absolute with
  | false => simpa [text, ha] using pathParts_intercalate hne h
  | true =>
    simp only [text, ha, ↓reduceIte]
    rw [pathParts_slash_append, pathParts_intercalate hne h, List.singleton_append]

theorem isAbsolutePath_text {p : Path} {first : String} {rest : List String}
    (hp : p.parts = first :: rest) (hne : first ≠ "") (h : '/' ∉ first.toList) :
    isAbsolutePath p.text = p.absolute := by
  cases ha : p.absolute with
  | true => simp [text, ha, isAbsolutePath]
  | false =>
    obtain ⟨c, cs, hc⟩ := List.exists_cons_of_ne_nil (mt String.toList_eq_nil_iff.mp hne)
    have hcs : ¬ c = '/' := by rintro rfl; simp [hc] at h
    cases rest with
    | nil => simp [text, ha, isAbsolutePath, hp, hc, hcs]
    | cons second rest =>
      simp [text, ha, isAbsolutePath, hp, hc, hcs, String.toList_intercalate]

end Path

section Join

variable (directory : String) {name : String}

theorem not_slash_of_mem_joined (h : '/' ∉ name.toList) :
    ∀ part ∈ (Path.ofString directory).parts ++ [name], '/' ∉ part.toList := by
  intro part hp
  rcases List.mem_append.mp hp with hp | hp
  · rcases Path.mem_parts_ofString hp with rfl | ⟨_, hp⟩
    · decide
    · exact not_slash_of_mem_pathParts hp
  · rwa [List.mem_singleton.mp hp]

/-- The parts of a joined path are the normal parts of the directory and the name. -/
theorem pathParts_joinPath (h : '/' ∉ name.toList) :
    pathParts (joinPath directory name) =
      (if isAbsolutePath directory then [""] else []) ++
        ((Path.ofString directory).parts ++ [name]) :=
  Path.pathParts_text (p := (Path.ofString directory).child name)
    (List.append_ne_nil_of_right_ne_nil _ (List.cons_ne_nil name []))
    (not_slash_of_mem_joined directory h)

theorem isAbsolutePath_joinPath (hn : IsName name) (h : '/' ∉ name.toList) :
    isAbsolutePath (joinPath directory name) = isAbsolutePath directory := by
  have hs := not_slash_of_mem_joined directory h
  cases hp : (Path.ofString directory).parts ++ [name] with
  | nil => simp at hp
  | cons first rest =>
    rw [hp] at hs
    refine Path.isAbsolutePath_text (p := (Path.ofString directory).child name) hp ?_
      (hs first List.mem_cons_self)
    have hm : first ∈ (Path.ofString directory).parts ++ [name] := hp ▸ List.mem_cons_self
    rcases List.mem_append.mp hm with hm | hm
    · rcases Path.mem_parts_ofString hm with rfl | ⟨hn, _⟩
      · decide
      · exact hn.1
    · rw [List.mem_singleton.mp hm]
      exact hn.1

theorem suffix_joinPath (name : String) :
    name.toList <:+ (joinPath directory name).toList := by
  have hjoined : ∀ pieces : List (List Char),
      name.toList <:+ List.intercalate "/".toList (pieces ++ [name.toList]) := by
    intro pieces
    induction pieces with
    | nil => simp
    | cons piece pieces ih =>
      rw [List.cons_append, List.intercalate_cons_of_ne_nil (by simp)]
      exact ih.trans (List.suffix_append _ _)
  rw [joinPath, Path.text, String.toList_append, String.toList_intercalate, Path.child,
    List.map_append]
  exact (hjoined _).trans (List.suffix_append _ _)

theorem mem_intercalate {c : Char} {separator : List Char} {pieces : List (List Char)}
    (h : c ∈ separator.intercalate pieces) : c ∈ separator ∨ ∃ piece ∈ pieces, c ∈ piece := by
  induction pieces with
  | nil => simp at h
  | cons piece pieces ih =>
    cases pieces with
    | nil => exact Or.inr ⟨piece, List.mem_cons_self, by simpa using h⟩
    | cons next pieces =>
      rw [List.intercalate_cons_cons, List.append_assoc, List.mem_append, List.mem_append] at h
      rcases h with h | h | h
      · exact Or.inr ⟨piece, List.mem_cons_self, h⟩
      · exact Or.inl h
      · rcases ih h with h | ⟨p, hp, hc⟩
        · exact Or.inl h
        · exact Or.inr ⟨p, List.mem_cons_of_mem _ hp, hc⟩

theorem mem_toList_joinPath {c : Char} (h : c ∈ (joinPath directory name).toList) :
    c = '/' ∨ c = '.' ∨ c ∈ directory.toList ∨ c ∈ name.toList := by
  have hsep : ("/" : String).toList = ['/'] := by decide
  rw [joinPath, Path.text, String.toList_append, String.toList_intercalate, List.mem_append] at h
  rcases h with h | h
  · split at h <;> simp_all
  · rcases mem_intercalate h with h | ⟨piece, hp, hc⟩
    · exact Or.inl (by simpa [hsep] using h)
    · obtain ⟨part, hpart, rfl⟩ := List.mem_map.mp hp
      have hm : part ∈ (Path.ofString directory).parts ++ [name] := hpart
      rcases List.mem_append.mp hm with hp | hp
      · rcases Path.mem_parts_ofString hp with rfl | ⟨_, hp⟩
        · have hdots : (".." : String).toList = ['.', '.'] := by decide
          exact Or.inr (Or.inl (by simpa [hdots] using hc))
        · exact Or.inr (Or.inr (Or.inl (subset_of_mem_pathParts hp hc)))
      · rw [List.mem_singleton.mp hp] at hc
        exact Or.inr (Or.inr (Or.inr hc))

end Join

end AgentPrompts
