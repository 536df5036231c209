import AgentPrompts.FileTree
import AgentPrompts.Proofs.Path.Normal

/-! # Walks along paths

A walk follows the parts of a path in the space of locations and looks at no disk. The
normal form of a path walks to the same place, and it stops only where the path stops: a
property of all stops of a path is one of all stops of its normal form.
-/

namespace AgentPrompts

namespace Location

def step (l : Location) (part : String) : Location :=
  if part = "" ∨ part = "." then l
  else if part = ".." then l.dropLast
  else l ++ [part]

def walk (l : Location) (parts : List String) : Location := parts.foldl step l

/-- The locations through which parts lead, with the first and the last. -/
def stops : Location → List String → List Location
  | l, [] => [l]
  | l, part :: parts => l :: stops (step l part) parts

variable {l m : Location} {part : String} {parts : List String}

theorem step_of_blank (h : part = "" ∨ part = ".") : step l part = l := by
  rw [step, if_pos h]

@[simp] theorem step_dots (l : Location) : step l ".." = l.dropLast := by
  simp [step]

theorem step_of_isName (h : IsName part) : step l part = l ++ [part] := by
  obtain ⟨h₁, h₂, h₃⟩ := h
  simp [step, h₁, h₂, h₃]

@[simp] theorem walk_nil (l : Location) : walk l [] = l := rfl

@[simp] theorem walk_cons (l : Location) (part : String) (parts : List String) :
    walk l (part :: parts) = walk (step l part) parts := rfl

@[simp] theorem walk_append (l : Location) (parts rest : List String) :
    walk l (parts ++ rest) = walk (walk l parts) rest := List.foldl_append

theorem mem_stops_nil : m ∈ stops l [] ↔ m = l := by simp [stops]

theorem mem_stops_cons : m ∈ stops l (part :: parts) ↔ m = l ∨ m ∈ stops (step l part) parts := by
  simp [stops]

theorem forall_mem_stops_cons {D : Location → Prop} :
    (∀ m ∈ stops l (part :: parts), D m) ↔ D l ∧ ∀ m ∈ stops (step l part) parts, D m := by
  simp [stops]

theorem start_mem_stops (l : Location) (parts : List String) : l ∈ stops l parts := by
  cases parts <;> simp [stops]

theorem walk_mem_stops (l : Location) (parts : List String) : walk l parts ∈ stops l parts := by
  induction parts generalizing l with
  | nil => simp [stops]
  | cons part parts ih => exact mem_stops_cons.mpr (Or.inr (ih (step l part)))

theorem mem_stops_append {rest : List String} :
    m ∈ stops l (parts ++ rest) ↔ m ∈ stops l parts ∨ m ∈ stops (walk l parts) rest := by
  induction parts generalizing l with
  | nil =>
    simp only [List.nil_append, mem_stops_nil, walk_nil]
    constructor
    · exact Or.inr
    · rintro (rfl | h)
      · exact start_mem_stops _ _
      · exact h
  | cons part parts ih =>
    rw [List.cons_append, mem_stops_cons, mem_stops_cons, ih, walk_cons, or_assoc]

theorem mem_stops_concat : m ∈ stops l (parts ++ [part]) ↔
    m ∈ stops l parts ∨ m = step (walk l parts) part := by
  rw [mem_stops_append, mem_stops_cons, mem_stops_nil]
  constructor
  · rintro (h | rfl | h)
    · exact Or.inl h
    · exact Or.inl (walk_mem_stops _ _)
    · exact Or.inr h
  · rintro (h | h)
    · exact Or.inl h
    · exact Or.inr (Or.inr h)

/-- Normal parts, kept last first, that lead from a location to another one and stop only
where a property holds. -/
structure Traces (D : Location → Prop) (l : Location) (stack : List String) (here : Location) :
    Prop where
  normal : ∀ part ∈ stack, part = ".." ∨ IsName part
  stops : ∀ m ∈ stops l stack.reverse, D m
  walk : walk l stack.reverse = here

variable {D : Location → Prop} {absolute : Bool} {stack : List String} {here : Location}

theorem Traces.cons (t : Traces D l stack here) (hn : part = ".." ∨ IsName part)
    (h : D (step here part)) : Traces D l (part :: stack) (step here part) where
  normal := by
    intro p hp
    rcases List.mem_cons.mp hp with rfl | hp
    · exact hn
    · exact t.normal p hp
  stops := by
    intro m hm
    rw [List.reverse_cons, mem_stops_concat, t.walk] at hm
    rcases hm with hm | rfl
    · exact t.stops m hm
    · exact h
  walk := by rw [List.reverse_cons, walk_append, t.walk, walk_cons, walk_nil]

theorem Traces.tail {last : String} (t : Traces D l (last :: stack) here) (h : last ≠ "..") :
    Traces D l stack here.dropLast where
  normal := fun p hp => t.normal p (List.mem_cons_of_mem last hp)
  stops := by
    intro m hm
    apply t.stops
    rw [List.reverse_cons, mem_stops_concat]
    exact Or.inl hm
  walk := by
    have hn : IsName last := (t.normal last List.mem_cons_self).resolve_left h
    have hw := t.walk
    rw [List.reverse_cons, walk_append, walk_cons, walk_nil, step_of_isName hn] at hw
    rw [← hw, List.dropLast_concat]

theorem Traces.push (ha : absolute → l = [])
    (t : Traces D l stack here) (part : String) (h : D (step here part)) :
    Traces D l (Path.push absolute stack part) (step here part) := by
  rcases Path.part_cases part with hb | rfl | hn
  · rw [Path.push_of_blank hb, step_of_blank hb]
    exact t
  · rcases Path.push_dots absolute stack with ⟨rfl, habs, he⟩ | ⟨_, he⟩ | ⟨last, rest, rfl, hl, he⟩
    · obtain rfl : l = [] := ha habs
      obtain rfl : [] = here := t.walk
      rw [he]
      exact t
    · rw [he]
      exact t.cons (Or.inl rfl) h
    · rw [he, step_dots]
      exact t.tail hl
  · rw [Path.push_of_isName hn]
    exact t.cons (Or.inr hn) h

theorem Traces.foldl_push (ha : absolute → l = [])
    (t : Traces D l stack here) (h : ∀ m ∈ Location.stops here parts, D m) :
    Traces D l (parts.foldl (Path.push absolute) stack) (Location.walk here parts) := by
  induction parts generalizing stack here with
  | nil => exact t
  | cons part parts ih =>
    have hs : D (step here part) := h _ (mem_stops_cons.mpr (Or.inr (start_mem_stops _ _)))
    exact ih (t.push ha part hs) fun m hm => h m (mem_stops_cons.mpr (Or.inr hm))

section Normal

variable {s : String} (ha : isAbsolutePath s → l = [])
include ha

theorem traces_ofString : Traces (· ∈ stops l (pathParts s)) l
    ((pathParts s).foldl (Path.push (isAbsolutePath s)) []) (walk l (pathParts s)) := by
  have t : Traces (· ∈ stops l (pathParts s)) l [] l := by
    refine ⟨by simp, ?_, rfl⟩
    intro m hm
    rw [mem_stops_nil.mp hm]
    exact start_mem_stops l _
  exact t.foldl_push ha fun m hm => hm

/-- The normal form of a path stops only where the path stops. -/
theorem stops_ofString_subset : stops l (Path.ofString s).parts ⊆ stops l (pathParts s) :=
  fun m hm => (traces_ofString ha).stops m hm

/-- The normal form of a path leads to the same place. -/
theorem walk_ofString : walk l (Path.ofString s).parts = walk l (pathParts s) :=
  (traces_ofString ha).walk

end Normal

end Location

end AgentPrompts
