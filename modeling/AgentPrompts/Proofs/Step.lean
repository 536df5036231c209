/-! # Steps that may fail

Steps that follow each other return when each of them has returned. What one step of a run
over a list keeps, the whole run keeps.
-/

namespace AgentPrompts

section Steps

variable {ε α β : Type}

theorem exists_of_bind_eq_ok {x : Except ε α} {f : α → Except ε β} {b : β}
    (h : x >>= f = .ok b) : ∃ a, x = .ok a ∧ f a = .ok b := by
  cases x with
  | error e => cases h
  | ok a => exact ⟨a, rfl, h⟩

theorem cases_of_bind_eq_error {x : Except ε α} {f : α → Except ε β} {e : ε}
    (h : x >>= f = .error e) : x = .error e ∨ ∃ a, x = .ok a ∧ f a = .error e := by
  cases x with
  | error e' =>
    obtain rfl : e' = e := Except.error.inj h
    exact Or.inl rfl
  | ok a => exact Or.inr ⟨a, rfl, h⟩

theorem exists_of_map_eq_ok {x : Except ε α} {f : α → β} {b : β} (h : x.map f = .ok b) :
    ∃ a, x = .ok a ∧ f a = b := by
  cases x with
  | error e => cases h
  | ok a => exact ⟨a, rfl, Except.ok.inj h⟩

theorem ok_of_mapError_eq_ok {ε' : Type} {x : Except ε α} {f : ε → ε'} {a : α}
    (h : x.mapError f = .ok a) : x = .ok a := by
  cases x with
  | error e => cases h
  | ok a' => exact congrArg Except.ok (Except.ok.inj h)

theorem exists_of_toOption_map {x : Except ε α} {f : α → β} {b : β}
    (h : x.toOption.map f = some b) : ∃ a, x = .ok a ∧ f a = b := by
  cases x with
  | error e => cases h
  | ok a => exact ⟨a, rfl, Option.some_inj.mp h⟩

theorem forall_of_toOption_map {x : Except ε α} {f : α → β} {b : β}
    (h : x.toOption.map f = some b) : ∀ a, x = .ok a → f a = b := by
  rintro a rfl
  exact Option.some_inj.mp h

variable {f : β → α → Except ε β} {b b' : β}

theorem foldlM_append_ok {as : List α} (h : as.foldlM f b = .ok b') (as' : List α) :
    (as ++ as').foldlM f b = as'.foldlM f b' := by
  rw [List.foldlM_append, h]
  rfl

theorem foldlM_cons_ok {a : α} (h : f b a = .ok b') (as : List α) :
    (a :: as).foldlM f b = as.foldlM f b' := by
  rw [List.foldlM_cons, h]
  rfl

/-- What holds before a run and is kept by each step holds after the run. It may speak of the
part of the list that is still to come. -/
theorem foldlM_keeps (I : List α → β → Prop)
    (hstep : ∀ a as b b', I (a :: as) b → f b a = .ok b' → I as b') {as : List α}
    (hb : I as b) (h : as.foldlM f b = .ok b') : I [] b' := by
  induction as generalizing b with
  | nil =>
    obtain rfl := Except.ok.inj h
    exact hb
  | cons a as ih =>
    rw [List.foldlM_cons] at h
    obtain ⟨b₁, h₁, h₂⟩ := exists_of_bind_eq_ok h
    exact ih (hstep a as b b₁ hb h₁) h₂

end Steps

end AgentPrompts
