import Mathlib.Data.List.Nodup
import AgentPrompts.Members

/-! # Members set and listed

Setting a member keeps the names of a record distinct and adds no other name. Listing a
record puts its members into another order and neither adds nor loses any. A member whose name is
no index can be left out before as well as after.
-/

namespace AgentPrompts.Members

variable {α : Type} {ms : Members α} {m : String × α} {name other : String} {value : α}

def Distinct (ms : Members α) : Prop := (ms.map Prod.fst).Nodup

theorem eq_or_mem_of_mem_set (h : m ∈ ms.set name value) : m = (name, value) ∨ m ∈ ms := by
  induction ms with
  | nil => exact Or.inl (List.mem_singleton.mp h)
  | cons m' ms ih =>
    rw [set] at h
    split at h
    · rcases List.mem_cons.mp h with h | h
      · exact Or.inl h
      · exact Or.inr (List.mem_cons_of_mem _ h)
    · rcases List.mem_cons.mp h with rfl | h
      · exact Or.inr List.mem_cons_self
      · exact (ih h).imp_right (List.mem_cons_of_mem _)

theorem mem_map_fst_set :
    other ∈ (ms.set name value).map Prod.fst ↔ other = name ∨ other ∈ ms.map Prod.fst := by
  induction ms with
  | nil => simp [set]
  | cons m ms ih =>
    rw [set]
    split
    next h => simp [h]
    next => simp only [List.map_cons, List.mem_cons, ih, or_left_comm]

theorem Distinct.set (h : Distinct ms) : Distinct (ms.set name value) := by
  induction ms with
  | nil => exact List.nodup_singleton _
  | cons m ms ih =>
    obtain ⟨hm, hms⟩ := List.nodup_cons.mp h
    rw [Members.set]
    split
    next he => exact List.nodup_cons.mpr ⟨he ▸ hm, hms⟩
    next he =>
      refine List.nodup_cons.mpr ⟨fun hmem => ?_, ih hms⟩
      rcases mem_map_fst_set.mp hmem with hname | hmem
      · exact he hname
      · exact hm hmem

theorem set_of_not_mem (h : ∀ m ∈ ms, m.1 ≠ name) :
    ms.set name value = ms ++ [(name, value)] := by
  induction ms with
  | nil => rfl
  | cons m ms ih =>
    rw [Members.set, if_neg (h m List.mem_cons_self), ih fun m hm => h m (List.mem_cons_of_mem _ hm),
      List.cons_append]

theorem foldl_set (named : Members α) (h : ((ms ++ named).map Prod.fst).Nodup) :
    named.foldl (fun ms m => ms.set m.1 m.2) ms = ms ++ named := by
  induction named generalizing ms with
  | nil => simp
  | cons m named ih =>
    have hnew : ∀ m' ∈ ms, m'.1 ≠ m.1 := by
      intro m' hm'
      rw [List.map_append, List.nodup_append] at h
      exact h.2.2 _ (List.mem_map_of_mem hm') _ (by simp)
    rw [List.foldl_cons, set_of_not_mem hnew, ih (by simpa using h), List.append_assoc]
    rfl

theorem Distinct.get?_eq_some (h : Distinct ms) (hm : m ∈ ms) : get? m.1 ms = some m.2 := by
  induction ms with
  | nil => cases hm
  | cons m' ms ih =>
    obtain ⟨hnew, hms⟩ := List.nodup_cons.mp h
    rw [get?, lookup_member]
    rcases List.mem_cons.mp hm with rfl | hm
    · rw [if_pos rfl]
    · have hne : m.1 ≠ m'.1 := fun he => hnew (he ▸ List.mem_map_of_mem hm)
      rw [if_neg hne]
      exact ih hms hm

theorem mem_of_get?_eq_some (h : get? name ms = some value) : (name, value) ∈ ms := by
  obtain ⟨before, after, rfl, -⟩ := List.lookup_eq_some_iff.mp h
  exact List.mem_append_right _ List.mem_cons_self

theorem get?_map {β : Type} (f : α → β) (name : String) (ms : Members α) :
    get? name (ms.map fun m => (m.1, f m.2)) = (get? name ms).map f := by
  induction ms with
  | nil => rfl
  | cons m ms ih =>
    simp only [get?] at ih
    simp only [get?, List.map_cons, lookup_member, ih]
    split <;> rfl

theorem mem_insertIndexed {i : Nat} {n : Nat × String × α} {ns : List (Nat × String × α)} :
    n ∈ insertIndexed i m ns ↔ n = (i, m) ∨ n ∈ ns := by
  induction ns with
  | nil => simp [insertIndexed]
  | cons n' ns ih =>
    rw [insertIndexed]
    split
    · exact List.mem_cons
    · simp only [List.mem_cons, ih, or_left_comm]

theorem mem_foldl_insertIndexed {acc : List (Nat × String × α)} {n : Nat × String × α} :
    n ∈ ms.foldl (fun acc m =>
        match index? m.1 with
        | some i => insertIndexed i m acc
        | none => acc) acc ↔ n ∈ acc ∨ n.2 ∈ ms ∧ index? n.2.1 = some n.1 := by
  induction ms generalizing acc with
  | nil => simp
  | cons m ms ih =>
    rw [List.foldl_cons, ih]
    obtain ⟨i, m'⟩ := n
    cases hm : index? m.1 with
    | none =>
      constructor
      · rintro (h | ⟨h, hi⟩)
        · exact Or.inl h
        · exact Or.inr ⟨List.mem_cons_of_mem _ h, hi⟩
      · rintro (h | ⟨h, hi⟩)
        · exact Or.inl h
        · rcases List.mem_cons.mp h with rfl | h
          · rw [hm] at hi
            cases hi
          · exact Or.inr ⟨h, hi⟩
    | some j =>
      simp only [mem_insertIndexed, Prod.mk.injEq]
      constructor
      · rintro ((⟨rfl, rfl⟩ | h) | ⟨h, hi⟩)
        · exact Or.inr ⟨List.mem_cons_self, hm⟩
        · exact Or.inl h
        · exact Or.inr ⟨List.mem_cons_of_mem _ h, hi⟩
      · rintro (h | ⟨h, hi⟩)
        · exact Or.inl (Or.inr h)
        · rcases List.mem_cons.mp h with rfl | h
          · rw [hm] at hi
            exact Or.inl (Or.inl ⟨(Option.some_inj.mp hi).symm, rfl⟩)
          · exact Or.inr ⟨h, hi⟩

theorem foldl_eq_self {β : Type} {f : β → α → β} {b : β} {as : List α}
    (h : ∀ a ∈ as, f b a = b) : as.foldl f b = b := by
  induction as with
  | nil => rfl
  | cons a as ih =>
    rw [List.foldl_cons, h a List.mem_cons_self, ih fun a ha => h a (List.mem_cons_of_mem _ ha)]

theorem listed_eq_self (h : ∀ m ∈ ms, index? m.1 = none) : listed ms = ms := by
  rw [listed, foldl_eq_self fun m hm => by rw [h m hm],
    List.filter_eq_self.mpr fun m hm => by rw [h m hm]; rfl]
  rfl

theorem mem_listed : m ∈ listed ms ↔ m ∈ ms := by
  rw [listed, List.mem_append, List.mem_map, List.mem_filter]
  constructor
  · rintro (⟨n, hn, rfl⟩ | ⟨h, -⟩)
    · rcases mem_foldl_insertIndexed.mp hn with h | ⟨h, -⟩
      · cases h
      · exact h
    · exact h
  · intro h
    cases hm : index? m.1 with
    | none => exact Or.inr ⟨h, rfl⟩
    | some i => exact Or.inl ⟨(i, m), mem_foldl_insertIndexed.mpr (Or.inr ⟨h, hm⟩), rfl⟩

section Assignments

variable {assignments : List (String × α)}

theorem mem_of_mem_foldl_set (h : m ∈ assignments.foldl (fun ms a => ms.set a.1 a.2) ms) :
    m ∈ ms ∨ m ∈ assignments := by
  induction assignments generalizing ms with
  | nil => exact Or.inl h
  | cons a as ih =>
    rcases ih h with h | h
    · rcases eq_or_mem_of_mem_set h with rfl | h
      · exact Or.inr List.mem_cons_self
      · exact Or.inl h
    · exact Or.inr (List.mem_cons_of_mem _ h)

theorem mem_map_fst_foldl_set :
    name ∈ (assignments.foldl (fun ms a => ms.set a.1 a.2) ms).map Prod.fst ↔
      name ∈ ms.map Prod.fst ∨ name ∈ assignments.map Prod.fst := by
  induction assignments generalizing ms with
  | nil => simp
  | cons a as ih => rw [List.foldl_cons, ih, mem_map_fst_set, List.map_cons, List.mem_cons, or_assoc,
      or_left_comm]

theorem mem_of_mem_ofList (h : m ∈ ofList assignments) : m ∈ assignments := by
  rcases mem_of_mem_foldl_set (mem_listed.mp h) with h | h
  · cases h
  · exact h

theorem ofList_eq_self (hnames : ms.Distinct) (hindex : ∀ m ∈ ms, index? m.1 = none) :
    ofList ms = ms := by
  have hset : ms.foldl (fun ms m => Members.set m.1 m.2 ms) [] = ms := foldl_set ms hnames
  rw [ofList, hset, listed_eq_self hindex]

theorem exists_mem_ofList (h : m ∈ assignments) : ∃ m' ∈ ofList assignments, m'.1 = m.1 := by
  have hname : m.1 ∈ assignments.map Prod.fst := List.mem_map_of_mem h
  obtain ⟨m', hm', he⟩ := List.mem_map.mp (mem_map_fst_foldl_set.mpr (Or.inr hname))
  exact ⟨m', mem_listed.mpr hm', he⟩

end Assignments

section Without

def without (name : String) (ms : Members α) : Members α := ms.filter fun m => m.1 ≠ name

theorem without_set : (ms.set other value).without name =
    if other = name then ms.without name else (ms.without name).set other value := by
  induction ms with
  | nil =>
    by_cases h : other = name <;> simp [set, without, h]
  | cons m ms ih =>
    by_cases hm : m.1 = other <;> by_cases h : other = name <;> by_cases hn : m.1 = name <;>
      simp_all [set, without]

theorem without_cons : without name (m :: ms) = if m.1 = name then ms.without name
    else m :: ms.without name := by
  rw [without, List.filter_cons]
  by_cases h : m.1 = name <;> simp [h, without]

theorem without_foldl_set (as : Members α) :
    (as.foldl (fun ms a => ms.set a.1 a.2) ms).without name =
      (as.without name).foldl (fun ms a => ms.set a.1 a.2) (ms.without name) := by
  induction as generalizing ms with
  | nil => rfl
  | cons a as ih =>
    rw [List.foldl_cons, ih, without_set, without_cons]
    split <;> rfl

theorem without_listed (h : index? name = none) :
    (listed ms).without name = listed (ms.without name) := by
  let insert (acc : List (ℕ × String × α)) (m : String × α) : List (ℕ × String × α) :=
    match index? m.1 with
    | some i => insertIndexed i m acc
    | none => acc
  have hlisted (ms : Members α) : listed ms =
      (ms.foldl insert []).map (·.2) ++ ms.filter fun m => (index? m.1).isNone := rfl
  have hindexed : (ms.without name).foldl insert [] = ms.foldl insert [] := by
    rw [without, List.foldl_filter]
    congr 1
    funext acc m
    by_cases hm : m.1 = name <;> simp [insert, hm, h]
  have hkept : without name ((ms.foldl insert []).map (·.2)) = (ms.foldl insert []).map (·.2) := by
    refine List.filter_eq_self.mpr fun m hm => decide_eq_true ?_
    obtain ⟨n, hn, rfl⟩ := List.mem_map.mp hm
    rcases mem_foldl_insertIndexed.mp hn with hn | ⟨-, hn⟩
    · cases hn
    · rintro rfl
      rw [h] at hn
      cases hn
  rw [hlisted, hlisted, hindexed, without, List.filter_append, ← without, hkept, without,
    List.filter_filter, List.filter_filter]
  simp only [Bool.and_comm]

theorem without_ofList (h : index? name = none) (as : Members α) :
    (ofList as).without name = ofList (as.without name) := by
  rw [ofList, without_listed h, without_foldl_set]
  rfl

end Without
end AgentPrompts.Members
