import Mathlib.Data.List.Basic
import Mathlib.Logic.Relation
import AgentPrompts.Proofs.Path.Normal

/-! # Simplifying paths

A path is simplified by leaving out a part that is empty or a dot, a name together with the
two dots behind it, or two dots right behind the root. Whatever is left out first, a path
has one normal form, and the parts of a path are that form.
-/

namespace AgentPrompts.Path

inductive Simplifies (absolute : Bool) : List String → List String → Prop where
  | blank {part : String} (front rest : List String) (h : part = "" ∨ part = ".") :
      Simplifies absolute (front ++ part :: rest) (front ++ rest)
  | undo {name : String} (front rest : List String) (h : IsName name) :
      Simplifies absolute (front ++ name :: ".." :: rest) (front ++ rest)
  | root (rest : List String) (h : absolute) : Simplifies absolute (".." :: rest) rest

/-- Names behind pairs of dots, of which an absolute path has none. -/
def IsNormal (absolute : Bool) (parts : List String) : Prop :=
  ∃ ups names, parts = List.replicate ups ".." ++ names ∧ (∀ name ∈ names, IsName name) ∧
    (absolute → ups = 0)

def IsNormalForm (absolute : Bool) (parts normal : List String) : Prop :=
  Relation.ReflTransGen (Simplifies absolute) parts normal ∧ IsNormal absolute normal

variable {absolute : Bool} {parts stack normal : List String} {part name : String}

section Normal

theorem IsNormal.nil : IsNormal absolute [] := ⟨0, [], rfl, nofun, fun _ => rfl⟩

theorem IsNormal.mem (h : IsNormal absolute parts) (hp : part ∈ parts) :
    part = ".." ∨ IsName part := by
  obtain ⟨ups, names, rfl, hnames, -⟩ := h
  rcases List.mem_append.mp hp with hp | hp
  · exact Or.inl (List.eq_of_mem_replicate hp)
  · exact Or.inr (hnames part hp)

theorem IsNormal.append_name (h : IsNormal absolute parts) (hname : IsName name) :
    IsNormal absolute (parts ++ [name]) := by
  obtain ⟨ups, names, rfl, hnames, hroot⟩ := h
  refine ⟨ups, names ++ [name], List.append_assoc _ _ _, ?_, hroot⟩
  intro p hp
  rcases List.mem_append.mp hp with hp | hp
  · exact hnames p hp
  · rwa [List.mem_singleton.mp hp]

theorem IsNormal.of_append (h : IsNormal absolute (parts ++ [part])) :
    IsNormal absolute parts := by
  obtain ⟨ups, names, heq, hnames, hroot⟩ := h
  rcases List.eq_nil_or_concat' names with rfl | ⟨init, last, rfl⟩
  · obtain ⟨hlength, hall⟩ := List.eq_replicate_iff.mp (heq.trans (List.append_nil _))
    refine ⟨parts.length, [], ?_, nofun, ?_⟩
    · rw [List.append_nil, List.eq_replicate_iff]
      exact ⟨rfl, fun p hp => hall p (List.mem_append_left _ hp)⟩
    · intro ha
      rw [hroot ha] at hlength
      simp at hlength
  · rw [← List.append_assoc] at heq
    exact ⟨ups, init, (List.append_inj' heq rfl).1,
      fun p hp => hnames p (List.mem_append_left _ hp), hroot⟩

theorem IsNormal.append_dots (h : IsNormal absolute (parts ++ [".."])) :
    IsNormal absolute (parts ++ [".."] ++ [".."]) := by
  obtain ⟨ups, names, heq, hnames, hroot⟩ := h
  rcases List.eq_nil_or_concat' names with rfl | ⟨init, last, rfl⟩
  · rw [List.append_nil] at heq
    refine ⟨ups + 1, [], ?_, nofun, ?_⟩
    · rw [heq, List.append_nil, ← List.replicate_succ']
    · intro ha
      rw [hroot ha] at heq
      simp at heq
  · rw [← List.append_assoc] at heq
    have hlast : ".." = last := List.singleton_inj.mp (List.append_inj' heq rfl).2
    have hname : IsName last := hnames last (by simp)
    exact absurd hlast.symm hname.2.2

theorem IsNormal.push (h : IsNormal absolute stack.reverse) :
    IsNormal absolute (push absolute stack part).reverse := by
  rcases part_cases part with hb | rfl | hn
  · rwa [push_of_blank hb]
  · rcases push_dots absolute stack with
      ⟨-, -, he⟩ | ⟨⟨rfl, ha⟩ | ⟨rest, rfl⟩, he⟩ | ⟨last, rest, rfl, -, he⟩
    · rw [he]
      exact .nil
    · rw [he]
      exact ⟨1, [], rfl, nofun, fun h => absurd h ha⟩
    · rw [List.reverse_cons] at h
      rw [he, List.reverse_cons, List.reverse_cons]
      exact h.append_dots
    · rw [List.reverse_cons] at h
      rw [he]
      exact h.of_append
  · rw [push_of_isName hn, List.reverse_cons]
    exact h.append_name hn

theorem IsNormal.simplifies_push (h : IsNormal absolute stack.reverse) (rest : List String) :
    Relation.ReflTransGen (Simplifies absolute) (stack.reverse ++ part :: rest)
      ((Path.push absolute stack part).reverse ++ rest) := by
  rcases part_cases part with hb | rfl | hn
  · rw [push_of_blank hb]
    exact .single (.blank _ rest hb)
  · rcases push_dots absolute stack with ⟨rfl, ha, he⟩ | ⟨-, he⟩ | ⟨last, below, rfl, hne, he⟩
    · rw [he]
      exact .single (.root rest ha)
    · rw [he, List.reverse_cons, List.append_assoc, List.singleton_append]
    · have hlast : IsName last := (h.mem (by simp)).resolve_left hne
      rw [he, List.reverse_cons, List.append_assoc, List.singleton_append]
      exact .single (.undo _ rest hlast)
  · rw [push_of_isName hn, List.reverse_cons, List.append_assoc, List.singleton_append]

theorem IsNormal.foldl_push (h : IsNormal absolute stack.reverse) (parts : List String) :
    IsNormalForm absolute (stack.reverse ++ parts)
      (parts.foldl (Path.push absolute) stack).reverse := by
  induction parts generalizing stack with
  | nil => exact ⟨by rw [List.append_nil]; rfl, h⟩
  | cons part parts ih =>
    obtain ⟨hrest, hnormal⟩ := ih h.push
    exact ⟨(h.simplifies_push parts).trans hrest, hnormal⟩

end Normal

section Unique

theorem foldl_push_names (h : ∀ name ∈ parts, IsName name) :
    parts.foldl (push absolute) stack = parts.reverse ++ stack := by
  induction parts generalizing stack with
  | nil => rfl
  | cons name parts ih =>
    obtain ⟨hname, hparts⟩ := List.forall_mem_cons.mp h
    rw [List.foldl_cons, push_of_isName hname, ih hparts, List.reverse_cons, List.append_assoc,
      List.singleton_append]

theorem IsNormal.foldl_push_eq (h : IsNormal absolute parts) :
    parts.foldl (Path.push absolute) [] = parts.reverse := by
  obtain ⟨ups, names, rfl, hnames, hroot⟩ := h
  have hups : (List.replicate ups "..").foldl (Path.push absolute) [] =
      List.replicate ups ".." := by
    cases absolute with
    | true => rw [hroot rfl, List.replicate_zero, List.foldl_nil]
    | false => simpa using foldl_push_dots 0 ups
  rw [List.foldl_append, hups, foldl_push_names hnames, List.reverse_append,
    List.reverse_replicate]

theorem Simplifies.foldl_push_eq {parts' : List String} (h : Simplifies absolute parts parts') :
    parts.foldl (push absolute) [] = parts'.foldl (push absolute) [] := by
  cases h with
  | blank front rest hb =>
    rw [List.foldl_append, List.foldl_cons, push_of_blank hb, List.foldl_append]
  | @undo name front rest hn =>
    rw [List.foldl_append, List.foldl_cons, List.foldl_cons, push_of_isName hn, List.foldl_append]
    congr 1
    simp [push, hn.2.2]
  | root rest ha => simp [push, ha]

theorem foldl_push_of_reflTransGen
    (h : Relation.ReflTransGen (Simplifies absolute) parts normal) :
    parts.foldl (push absolute) [] = normal.foldl (push absolute) [] := by
  induction h with
  | refl => rfl
  | tail _ hstep ih => exact ih.trans hstep.foldl_push_eq

/-- Parts have one normal form: the one that pushing them one after another makes. -/
theorem isNormalForm_iff : IsNormalForm absolute parts normal ↔
    normal = (parts.foldl (push absolute) []).reverse := by
  constructor
  · rintro ⟨hsteps, hnormal⟩
    rw [foldl_push_of_reflTransGen hsteps, hnormal.foldl_push_eq, List.reverse_reverse]
  · rintro rfl
    have hstart : IsNormal absolute ([] : List String).reverse := .nil
    exact hstart.foldl_push parts

/-- The parts of a path are the one normal form of the parts of its text. -/
theorem isNormalForm_ofString {s : String} :
    IsNormalForm (isAbsolutePath s) (pathParts s) normal ↔ normal = (ofString s).parts :=
  isNormalForm_iff

end Unique

end AgentPrompts.Path

namespace AgentPrompts

/-- The parts of a path text without the empty one in front of the root. -/
def components (s : String) : List String :=
  if isAbsolutePath s then (pathParts s).tail else pathParts s

section Components

variable {directory name : String}

theorem components_joinPath (hn : IsName name) (h : '/' ∉ name.toList) :
    components (joinPath directory name) = (Path.ofString directory).parts ++ [name] := by
  rw [components, isAbsolutePath_joinPath directory hn h, pathParts_joinPath directory h]
  cases isAbsolutePath directory with
  | false => rfl
  | true => rfl

theorem isNormal_components_joinPath (hn : IsName name) (h : '/' ∉ name.toList) :
    Path.IsNormal (isAbsolutePath (joinPath directory name))
      (components (joinPath directory name)) := by
  rw [isAbsolutePath_joinPath directory hn h, components_joinPath hn h]
  exact (Path.isNormalForm_ofString.mpr rfl).2.append_name hn

end Components

end AgentPrompts
