import AgentPrompts.Proofs.Number.Agents
import AgentPrompts.Proofs.Step
import AgentPrompts.Settings.Count

/-! # Counts that values state

A value states a natural number if it is one, or a text that is not blank and reads as one.
Every other value is refused with its text in the message. A value may hide its text: then
another error stands in for the message.
-/

namespace AgentPrompts

namespace Value

/-- The natural number that a value states. -/
def States (v : Value) (n : Nat) : Prop :=
  v = .number (.ofNat n) ∨
    ∃ text, v = .text text ∧ trimBlanks text.toList ≠ [] ∧ Number.ofText text = .ofNat n

/-- A value without a text: a record with a member that stands in for the rule for its text, a
list with such an item, or what a dotted option made of the rules of a record or list. -/
inductive HidesText : Value → Prop where
  | record {ms : List (String × Value)} (h : Members.has "toString" ms = true) :
      HidesText (.record ms)
  | list {vs : List Value} {v : Value} (hv : v ∈ vs) (h : HidesText v) : HidesText (.list vs)
  | container (e : TextError) : HidesText (.container (.error e))

theorem itemTexts_cons {v : Value} {vs : List Value} (h : v ≠ .absent) (h' : v ≠ .null) :
    itemTexts (v :: vs) = v.asText.bind fun t => (itemTexts vs).map (t :: ·) := by
  cases v with
  | absent => exact absurd rfl h
  | null => exact absurd rfl h'
  | _ =>
    rw [itemTexts]
    · rfl
    all_goals simp

theorem itemTexts_eq_error_iff {v : Value} {vs : List Value} :
    (∃ e, itemTexts (v :: vs) = .error e) ↔
      (∃ e, v.asText = .error e) ∨ ∃ e, itemTexts vs = .error e := by
  by_cases h : v = .absent ∨ v = .null
  · rcases h with rfl | rfl <;> rw [itemTexts] <;> cases itemTexts vs <;> simp [Except.map, asText]
  · obtain ⟨h, h'⟩ := not_or.mp h
    rw [itemTexts_cons h h']
    cases v.asText <;> cases itemTexts vs <;> simp [Except.map, Except.bind]

mutual

theorem hidesText_of_asText {e : TextError} : (v : Value) → v.asText = .error e → v.HidesText
  | .absent, h => by cases h
  | .null, h => by cases h
  | .bool true, h => by cases h
  | .bool false, h => by cases h
  | .number _, h => by cases h
  | .text _, h => by cases h
  | .list vs, h => by
    rw [asText] at h
    cases hitems : itemTexts vs with
    | ok ts =>
      rw [hitems] at h
      cases h
    | error e' =>
      obtain ⟨v, hv, hhides⟩ := hidesText_of_itemTexts vs hitems
      exact .list hv hhides
  | .record ms, h => by
    rw [asText] at h
    split at h
    next hmember => exact .record hmember
    next => cases h
  | .container shown, h => by
    rw [asText] at h
    rw [h]
    exact .container e

theorem hidesText_of_itemTexts {e : TextError} :
    (vs : List Value) → itemTexts vs = .error e → ∃ v ∈ vs, v.HidesText
  | [], h => by cases h
  | v :: vs, h => by
    rcases itemTexts_eq_error_iff.mp ⟨e, h⟩ with ⟨e', hv⟩ | ⟨e', hvs⟩
    · exact ⟨v, List.mem_cons_self, hidesText_of_asText v hv⟩
    · obtain ⟨v', hv', hhides⟩ := hidesText_of_itemTexts vs hvs
      exact ⟨v', List.mem_cons_of_mem _ hv', hhides⟩

end

theorem exists_itemTexts_eq_error {vs : List Value} {v : Value} (hv : v ∈ vs)
    (h : ∃ e, v.asText = .error e) : ∃ e, itemTexts vs = .error e := by
  induction vs with
  | nil => cases hv
  | cons v' vs ih =>
    rcases List.mem_cons.mp hv with rfl | hv
    · exact itemTexts_eq_error_iff.mpr (Or.inl h)
    · exact itemTexts_eq_error_iff.mpr (Or.inr (ih hv))

theorem HidesText.exists_asText_eq_error {v : Value} (h : v.HidesText) :
    ∃ e, v.asText = .error e := by
  induction h with
  | record h => exact ⟨.hidden, by rw [asText, if_pos h]⟩
  | list hv _ ih =>
    obtain ⟨e, he⟩ := exists_itemTexts_eq_error hv ih
    exact ⟨e, by rw [asText, he]; rfl⟩
  | container e => exact ⟨e, rfl⟩

theorem asText_cases (v : Value) :
    (∃ shown, v.asText = .ok shown ∧ ¬ v.HidesText) ∨ ∃ e, v.asText = .error e ∧ v.HidesText := by
  cases h : v.asText with
  | ok shown =>
    refine Or.inl ⟨shown, rfl, fun hhides => ?_⟩
    obtain ⟨e, he⟩ := hhides.exists_asText_eq_error
    rw [h] at he
    cases he
  | error e => exact Or.inr ⟨e, rfl, hidesText_of_asText v h⟩

theorem not_hidesText_of_isOk {v : Value} (h : v.asText.isOk = true) : ¬ v.HidesText := by
  rcases v.asText_cases with ⟨_, -, hshown⟩ | ⟨e, he, -⟩
  · exact hshown
  · rw [he] at h
    cases h

end Value

section Counts

variable {flag : String} {v : Value} {x : Number} {n : Nat} {f : Failure}

def refusal (flag : String) (v : Value) : Failure :=
  match v.asText with
  | .ok shown => .configuration (.notNatural flag shown)
  | .error e => .noText e

/-- A count is read from the number that its value states, if that is a natural number. -/
theorem parseCount_eq (flag : String) (v : Value) : ∃ x : Number,
    parseCount flag v = (if x.nat?.isSome then .ok x else .error (refusal flag v)) ∧
      ∀ n, v.States n ↔ x = .ofNat n := by
  have hread (x : Number) (hx : parseCount flag v = if x.nat?.isSome then .ok x
      else match v.asText with
        | .ok shown => .error (.configuration (.notNatural flag shown))
        | .error e => .error (.noText e)) :
      parseCount flag v = if x.nat?.isSome then .ok x else .error (refusal flag v) := by
    rw [hx, refusal]
    cases v.asText <;> rfl
  -- A blank text and a value of any other kind are read as no number at all.
  cases v with
  | number x => exact ⟨x, hread x rfl, fun n => by simp [Value.States]⟩
  | text s =>
    by_cases hblank : (trimBlanks s.toList).isEmpty
    · refine ⟨.nan, hread .nan (by simp only [parseCount, hblank]; rfl), fun n => ?_⟩
      simp [Value.States, List.isEmpty_iff.mp hblank, Number.ofNat]
    · refine ⟨Number.ofText s, hread _ (by simp only [parseCount, hblank]; rfl), fun n => ?_⟩
      simp [Value.States, mt List.isEmpty_iff.mpr hblank]
  | _ => exact ⟨.nan, hread .nan rfl, fun n => by simp [Value.States, Number.ofNat]⟩

theorem parseCount_eq_ok_iff : parseCount flag v = .ok x ↔ ∃ n, v.States n ∧ x = .ofNat n := by
  obtain ⟨y, hy, hstates⟩ := parseCount_eq flag v
  rw [hy]
  constructor
  · intro h
    split at h
    next hnat =>
      obtain ⟨n, hn⟩ := Option.isSome_iff_exists.mp hnat
      obtain rfl := Number.nat?_eq_some_iff.mp hn
      exact ⟨n, (hstates n).mpr rfl, (Except.ok.inj h).symm⟩
    next => cases h
  · rintro ⟨n, hn, rfl⟩
    obtain rfl := (hstates n).mp hn
    rw [if_pos (by rw [Number.nat?_ofNat]; rfl)]

theorem parseCount_of_not_states (h : ∀ n, ¬ v.States n) :
    parseCount flag v = .error (refusal flag v) := by
  obtain ⟨y, hy, hstates⟩ := parseCount_eq flag v
  rw [hy, if_neg]
  intro hnat
  obtain ⟨n, hn⟩ := Option.isSome_iff_exists.mp hnat
  exact h n ((hstates n).mpr (Number.nat?_eq_some_iff.mp hn))

theorem parseCount_eq_error_iff :
    parseCount flag v = .error f ↔ (∀ n, ¬ v.States n) ∧ f = refusal flag v := by
  constructor
  · intro h
    have hnot : ∀ n, ¬ v.States n := by
      intro n hn
      rw [parseCount_eq_ok_iff.mpr ⟨n, hn, rfl⟩] at h
      cases h
    rw [parseCount_of_not_states hnot] at h
    exact ⟨hnot, (Except.error.inj h).symm⟩
  · rintro ⟨hnot, rfl⟩
    exact parseCount_of_not_states hnot

end Counts

end AgentPrompts
