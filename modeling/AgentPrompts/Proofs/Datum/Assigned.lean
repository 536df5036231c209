import AgentPrompts.Datum.Assignment
import AgentPrompts.Proofs.Step

/-! # What assignments leave

A record or a list is changed by an assignment and stays one; anything else is left as it
is. Of the members of a record an assignment replaces the one that its path names, and
changes at most the one with which its path begins.
-/

namespace AgentPrompts.Datum

variable {v d d' : Datum} {additions additions' : Additions}

/-- What is left of a datum: the datum itself, or the record or list into which another
record or list was changed. -/
def Leaves (d d' : Datum) : Prop := d' = d ∨ d.isMade = true ∧ d'.isMade = true

namespace Leaves

theorem refl (d : Datum) : Leaves d d := Or.inl rfl

theorem trans {d'' : Datum} (h : Leaves d d') (h' : Leaves d' d'') : Leaves d d'' := by
  rcases h with rfl | ⟨hd, hd'⟩
  · exact h'
  · rcases h' with rfl | ⟨-, hd''⟩
    · exact Or.inr ⟨hd, hd'⟩
    · exact Or.inr ⟨hd, hd''⟩

theorem isMade (h : Leaves d d') (hd : d.isMade = true) : d'.isMade = true := by
  rcases h with rfl | ⟨-, hd'⟩
  · exact hd
  · exact hd'

theorem eq_of_not_isMade (h : Leaves d d') (hd : d.isMade = false) : d' = d := by
  rcases h with rfl | ⟨hmade, -⟩
  · rfl
  · rw [hd] at hmade
    cases hmade

end Leaves

theorem leaves_of_setParent (h : setParent v d = .ok d') : Leaves d d' := by
  unfold setParent at h
  split at h
  next =>
    obtain rfl := Except.ok.inj h
    exact Or.inr ⟨rfl, rfl⟩
  next =>
    split at h
    next => cases h
    next =>
      split at h
      next => cases h
      next => exact Or.inl (Except.ok.inj h).symm
  next => exact Or.inl (Except.ok.inj h).symm

theorem leaves_of_setNamed {name : String} {n : Nat} {ms : List (String × Datum)} {p : Datum}
    (h : setNamed name v n ms p = .ok d') : d'.isMade = true := by
  unfold setNamed at h
  split at h
  next =>
    split at h
    next =>
      obtain rfl := Except.ok.inj h
      rfl
    next => cases h
  next =>
    obtain rfl := Except.ok.inj h
    rfl

theorem leaves_of_set {name : String} (h : set name v additions d = .ok (d', additions')) :
    Leaves d d' := by
  unfold set at h
  split at h
  next =>
    obtain ⟨d₁, hset, he⟩ := exists_of_map_eq_ok h
    obtain ⟨rfl, -⟩ := Prod.mk.inj he
    exact leaves_of_setParent hset
  next =>
    split at h
    next => cases h
    next => cases h
    next => cases h
    next => cases h
    next b =>
      split at h
      next => cases h
      next =>
        split at h
        next => cases h
        next =>
          split at h
          next => cases h
          next => exact Or.inl (Prod.mk.inj (Except.ok.inj h)).1.symm
    next =>
      obtain ⟨rfl, -⟩ := Prod.mk.inj (Except.ok.inj h)
      exact Or.inr ⟨rfl, rfl⟩
    next =>
      split at h
      next =>
        obtain ⟨rfl, -⟩ := Prod.mk.inj (Except.ok.inj h)
        exact Or.inr ⟨rfl, rfl⟩
      next =>
        obtain ⟨d₁, hset, he⟩ := exists_of_map_eq_ok h
        obtain ⟨rfl, -⟩ := Prod.mk.inj he
        exact Or.inr ⟨rfl, leaves_of_setNamed hset⟩

def entered (additions : Additions) (name next : String) (d : Datum) : Datum :=
  if (d.get additions name).isAbsent then containerFor next else d.get additions name

section Paths

variable {name next : String} {names : List String}

theorem set_of_assign (h : assign v [name] additions d = .ok (d', additions')) :
    set name v additions d = .ok (d', additions') :=
  ok_of_mapError_eq_ok h

/-- An assignment along a path sets what it enters, assigns into it and puts back a record or
list that was changed. -/
theorem assign_cases (h : assign v (name :: next :: names) additions d = .ok (d', additions')) :
    ∃ d₁ additions₁ changed additions₂,
      set name (d.entered additions name next) additions d = .ok (d₁, additions₁) ∧
      assign v (next :: names) additions₁ (d.entered additions name next) =
        .ok (changed, additions₂) ∧
      (set name changed additions₂ d₁ = .ok (d', additions') ∨ d' = d₁) := by
  rw [assign] at h
  obtain ⟨⟨d₁, additions₁⟩, hset, h⟩ := exists_of_bind_eq_ok h
  obtain ⟨⟨changed, additions₂⟩, hassign, h⟩ := exists_of_bind_eq_ok h
  refine ⟨d₁, additions₁, changed, additions₂, ok_of_mapError_eq_ok hset, hassign, ?_⟩
  by_cases hmade : (d.entered additions name next).isMade = true
  · exact Or.inl (ok_of_mapError_eq_ok ((if_pos hmade).symm.trans h))
  · exact Or.inr (Prod.mk.inj (Except.ok.inj ((if_neg hmade).symm.trans h))).1.symm

/-- An assignment leaves a datum as it was, or another record or list in place of one. -/
theorem leaves_of_assign (h : assign v names additions d = .ok (d', additions')) :
    Leaves d d' := by
  cases names with
  | nil => exact Or.inl (Prod.mk.inj (Except.ok.inj h)).1.symm
  | cons name names =>
    cases names with
    | nil => exact leaves_of_set (set_of_assign h)
    | cons next names =>
      obtain ⟨d₁, _, changed, _, hset, -, hback | rfl⟩ := assign_cases h
      · exact (leaves_of_set hset).trans (leaves_of_set hback)
      · exact leaves_of_set hset

end Paths

section Records

variable {ms : Members Datum} {p w : Datum} {name key : String} {names : List String}

theorem setParent_record (h : setParent v (made none ms p) = .ok d') :
    ∃ p', d' = made none ms p' := by
  cases hv : v.isObject with
  | true =>
    simp only [setParent, hv] at h
    exact ⟨v, (Except.ok.inj h).symm⟩
  | false =>
    simp only [setParent, hv] at h
    exact ⟨p, (Except.ok.inj h).symm⟩

theorem set_record (h : set name v additions (made none ms p) = .ok (d', additions')) :
    name ≠ parentName ∧ d' = made none (Members.set name v ms) p ∨
      name = parentName ∧ ∃ p', d' = made none ms p' := by
  unfold set at h
  split at h
  next hname =>
    obtain ⟨d₁, hset, he⟩ := exists_of_map_eq_ok h
    obtain ⟨rfl, -⟩ := Prod.mk.inj he
    exact Or.inr ⟨hname, setParent_record hset⟩
  next hname => exact Or.inl ⟨hname, (Prod.mk.inj (Except.ok.inj h)).1.symm⟩

theorem set_record_of_ne (h : set name v additions (made none ms p) = .ok (d', additions'))
    (hkey : key ≠ name) :
    ∃ ms' p', d' = made none ms' p' ∧ Members.get? key ms' = Members.get? key ms := by
  rcases set_record h with ⟨-, rfl⟩ | ⟨-, p', rfl⟩
  · exact ⟨_, p, rfl, by rw [Members.get?_set, if_neg hkey]⟩
  · exact ⟨ms, p', rfl, rfl⟩

theorem set_record_self (h : set key v additions (made none ms p) = .ok (d', additions'))
    (hkey : key ≠ parentName) :
    ∃ ms', d' = made none ms' p ∧ Members.get? key ms' = some v := by
  rcases set_record h with ⟨-, rfl⟩ | ⟨hparent, -⟩
  · exact ⟨_, rfl, by rw [Members.get?_set, if_pos rfl]⟩
  · exact absurd hparent hkey

theorem get_of_get? (hkey : key ≠ parentName) (hw : Members.get? key ms = some w) :
    (made none ms p).get additions key = w := by
  rw [get, if_neg hkey]
  simp [member?, hw]

/-- An assignment leaves of a member what it leaves of its value, unless its path is the name of
the member. -/
theorem leaves_member_of_assign
    (h : assign v names additions (made none ms p) = .ok (d', additions'))
    (hnames : names ≠ [key]) (hkey : key ≠ parentName) (hw : Members.get? key ms = some w)
    (habsent : w.isAbsent = false) :
    ∃ ms' p' w', d' = made none ms' p' ∧ Members.get? key ms' = some w' ∧ Leaves w w' := by
  cases names with
  | nil =>
    obtain ⟨rfl, -⟩ := Prod.mk.inj (Except.ok.inj h)
    exact ⟨ms, p, w, rfl, hw, .refl w⟩
  | cons name names =>
    by_cases hname : key = name
    · subst hname
      cases names with
      | nil => exact absurd rfl hnames
      | cons next names =>
        -- The path goes through the member: its value is entered, changed and put back.
        have hentered : (made none ms p).entered additions key next = w := by
          rw [entered, get_of_get? hkey hw, habsent]
          rfl
        obtain ⟨d₁, additions₁, changed, additions₂, hset, hassign, hback⟩ := assign_cases h
        rw [hentered] at hset hassign
        obtain ⟨ms₁, rfl, hw₁⟩ := set_record_self hset hkey
        rcases hback with hback | rfl
        · obtain ⟨ms₂, rfl, hw₂⟩ := set_record_self hback hkey
          exact ⟨ms₂, p, changed, rfl, hw₂, leaves_of_assign hassign⟩
        · exact ⟨ms₁, p, w, rfl, hw₁, .refl w⟩
    · -- The path begins with another name, which may be that of the parent.
      cases names with
      | nil =>
        obtain ⟨ms', p', rfl, hw'⟩ := set_record_of_ne (set_of_assign h) hname
        exact ⟨ms', p', w, rfl, hw'.trans hw, .refl w⟩
      | cons next names =>
        obtain ⟨d₁, additions₁, changed, additions₂, hset, -, hback⟩ := assign_cases h
        obtain ⟨ms₁, p₁, rfl, hw₁⟩ := set_record_of_ne hset hname
        rcases hback with hback | rfl
        · obtain ⟨ms₂, p₂, rfl, hw₂⟩ := set_record_of_ne hback hname
          exact ⟨ms₂, p₂, w, rfl, hw₂.trans (hw₁.trans hw), .refl w⟩
        · exact ⟨ms₁, p₁, w, rfl, hw₁.trans hw, .refl w⟩

theorem exists_record_of_set
    (h : set name v additions (made none ms p) = .ok (d', additions')) :
    ∃ ms' p', d' = made none ms' p' := by
  rcases set_record h with ⟨-, rfl⟩ | ⟨-, p', rfl⟩
  · exact ⟨_, p, rfl⟩
  · exact ⟨ms, p', rfl⟩

theorem exists_record_of_assign (h : assign v names additions (made none ms p) = .ok (d', additions')) :
    ∃ ms' p', d' = made none ms' p' := by
  cases names with
  | nil => exact ⟨ms, p, (Prod.mk.inj (Except.ok.inj h)).1.symm⟩
  | cons name names =>
    cases names with
    | nil => exact exists_record_of_set (set_of_assign h)
    | cons next names =>
      obtain ⟨d₁, additions₁, changed, additions₂, hset, -, hback⟩ := assign_cases h
      obtain ⟨ms₁, p₁, rfl⟩ := exists_record_of_set hset
      rcases hback with hback | rfl
      · exact exists_record_of_set hback
      · exact ⟨ms₁, p₁, rfl⟩

end Records

end AgentPrompts.Datum
