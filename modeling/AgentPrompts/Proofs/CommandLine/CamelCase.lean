import Mathlib
import AgentPrompts.CommandLine.Options

/-! # Camel case

The option of a flag has the name of the flag in camel case: a dash in front of a lower-case
letter is dropped and the letter is made upper case. Read backwards, every character of the
option stands for itself or for a dash and a letter, and only an upper-case letter can have
lost a dash.
-/

namespace AgentPrompts.CommandLine

variable {cs ds : List Char} {a b c : Char}

theorem isUpper_toUpper (h : b.isLower = true) : b.toUpper.isUpper = true := by
  rw [Char.isUpper_toUpper_eq_isAlpha, Char.isAlpha, h, Bool.or_true]

theorem eq_of_toUpper_eq (h : b.isLower = true) (hupper : b.toUpper = 'R') : b = 'r' :=
  calc b = b.toLower := (Char.toLower_eq_of_not_isUpper (Char.not_isUpper_of_isLower h)).symm
    _ = b.toUpper.toLower := (Char.toLower_toUpper_eq_toLower b).symm
    _ = 'r' := by rw [hupper]; rfl

/-- What a text in camel case was written for: the same character, or a dash behind it. -/
theorem camelCase_cases (h : camelCase cs = a :: ds) :
    (∃ cs', cs = a :: cs' ∧ camelCase cs' = ds) ∨
      ∃ b cs', cs = a :: '-' :: b :: cs' ∧ b.isLower = true ∧ ds = b.toUpper :: camelCase cs' := by
  match cs with
  | [] => cases h
  | [x] =>
    obtain ⟨rfl, rfl⟩ := List.cons.inj h
    exact Or.inl ⟨[], rfl, rfl⟩
  | [x, y] =>
    obtain ⟨rfl, rfl⟩ := List.cons.inj h
    exact Or.inl ⟨[y], rfl, rfl⟩
  | x :: d :: b :: cs =>
    rw [camelCase] at h
    split at h
    next hdash =>
      obtain ⟨rfl, rfl⟩ := List.cons.inj h
      simp only [Bool.and_eq_true, decide_eq_true_eq] at hdash
      obtain ⟨⟨rfl, -⟩, hlower⟩ := hdash
      exact Or.inr ⟨b, cs, rfl, hlower, rfl⟩
    next =>
      obtain ⟨rfl, rfl⟩ := List.cons.inj h
      exact Or.inl ⟨d :: b :: cs, rfl, rfl⟩

theorem camelCase_cons (h : camelCase cs = a :: c :: ds) (hc : c.isUpper = false) :
    ∃ cs', cs = a :: cs' ∧ camelCase cs' = c :: ds := by
  rcases camelCase_cases h with h | ⟨b, cs', -, hlower, he⟩
  · exact h
  · obtain ⟨rfl, -⟩ := List.cons.inj he
    rw [isUpper_toUpper hlower] at hc
    cases hc

theorem camelCase_cons_ne_nil : camelCase (a :: cs) ≠ [] := by
  unfold camelCase
  split
  next => split <;> exact List.cons_ne_nil _ _
  next => exact List.cons_ne_nil _ _

theorem camelCase_singleton (h : camelCase cs = [a]) : cs = [a] := by
  rcases camelCase_cases h with ⟨cs', rfl, hnil⟩ | ⟨b, cs', -, -, he⟩
  · cases cs' with
    | nil => rfl
    | cons x cs' => exact absurd hnil camelCase_cons_ne_nil
  · cases he

theorem toList_optionName {name : String} (h : '.' ∉ name.toList) :
    (optionName name).toList = camelCase name.toList := by
  have hplain : ∀ c ∈ name.toList, decide (c ≠ '.') = true := fun c hc =>
    decide_eq_true fun he => h (he ▸ hc)
  rw [optionName, String.toList_ofList, List.takeWhile_eq_self_iff.mpr hplain,
    List.dropWhile_eq_nil_iff.mpr hplain, List.append_nil]

theorem camelCase_of_optionName {name key : String} (h : optionName name = key)
    (hdot : '.' ∉ key.toList) : camelCase name.toList = key.toList := by
  have hkey : camelCase (name.toList.takeWhile (· ≠ '.')) ++ name.toList.dropWhile (· ≠ '.') =
      key.toList := by
    rw [← h, optionName, String.toList_ofList]
  have hname : '.' ∉ name.toList := by
    rw [← List.takeWhile_append_dropWhile (p := (· ≠ '.')) (l := name.toList), List.mem_append]
    rintro (hmem | hmem)
    · exact absurd (List.mem_takeWhile_imp hmem) (by decide)
    · exact hdot (hkey ▸ List.mem_append_right _ hmem)
  rw [← toList_optionName hname, h]

theorem name_of_optionName {name : String} (h : optionName name = "dryRun") :
    name = "dry-run" ∨ name = "dryRun" := by
  obtain ⟨cs₁, hname, h₁⟩ := camelCase_cons (camelCase_of_optionName h (by decide)) (by decide)
  obtain ⟨cs₂, rfl, h₂⟩ := camelCase_cons h₁ (by decide)
  -- Of the characters only the `R` can have lost a dash.
  rcases camelCase_cases h₂ with ⟨cs₃, rfl, h₃⟩ | ⟨b, cs₃, rfl, hlower, he⟩
  · right
    obtain ⟨cs₄, rfl, h₄⟩ := camelCase_cons h₃ (by decide)
    obtain ⟨cs₅, rfl, h₅⟩ := camelCase_cons h₄ (by decide)
    rw [camelCase_singleton h₅] at hname
    exact String.toList_inj.mp hname
  · left
    obtain ⟨hupper, h₃⟩ := List.cons.inj he
    obtain ⟨cs₄, rfl, h₄⟩ := camelCase_cons h₃.symm (by decide)
    rw [camelCase_singleton h₄, eq_of_toUpper_eq hlower hupper.symm] at hname
    exact String.toList_inj.mp hname

end AgentPrompts.CommandLine
