import Mathlib.Data.Rat.Cast.Order
import Mathlib.Data.Rat.Lemmas
import AgentPrompts.Number.Decimal

/-! # Agents of a count

A count stands for the agents from one up to it, whether it is a natural number or not.
The text of an agent's number is its decimal digits, as long as the number lies below
`2 ^ 53`.
-/

namespace AgentPrompts.Number

/-- Whether a number lies below the bound up to which natural numbers are exact. -/
def BelowExact : Number → Prop
  | nan => False
  | infinite negative => negative
  | finite q => q < exactBound

theorem belowExact_ofNat {n : Nat} : (ofNat n).BelowExact ↔ n < exactBound := by
  simp [ofNat, BelowExact]

theorem nat?_ofNat (n : Nat) : (ofNat n).nat? = some n := by
  simp [ofNat, nat?]

theorem nat?_eq_some_iff {x : Number} {n : Nat} : x.nat? = some n ↔ x = ofNat n := by
  constructor
  · intro h
    cases x with
    | finite q =>
      simp only [nat?] at h
      split at h
      next hq =>
        obtain ⟨hden, hnum⟩ := hq
        have hn : q.num = (n : ℤ) := by
          have := Option.some_inj.mp h
          omega
        rw [ofNat, ← Rat.num_div_den q, hden, hn]
        simp
      next => cases h
    | nan => cases h
    | infinite negative => cases h
  · rintro rfl
    exact nat?_ofNat n

theorem text_ofNat {n : Nat} (h : n < exactBound) :
    (ofNat n).text = String.ofList (Nat.toDigits 10 n) := by
  have hq : ¬ (n : Rat) < 0 := not_lt.mpr (Nat.cast_nonneg n)
  simp [ofNat, text, magnitudeText, h, hq]

def firstAgents (n : Nat) : List Nat := (List.range n).map (· + 1)

section FirstAgents

variable {n a : Nat}

theorem mem_firstAgents : a ∈ firstAgents n ↔ 1 ≤ a ∧ a ≤ n := by
  rw [firstAgents, List.mem_map]
  constructor
  · rintro ⟨b, hb, rfl⟩
    rw [List.mem_range] at hb
    omega
  · rintro ⟨h, h'⟩
    exact ⟨a - 1, by rw [List.mem_range]; omega, by omega⟩

@[simp] theorem length_firstAgents (n : Nat) : (firstAgents n).length = n := by
  rw [firstAgents, List.length_map, List.length_range]

theorem firstAgents_subset {k : Nat} (h : k ≤ n) : firstAgents k ⊆ firstAgents n := by
  intro a ha
  obtain ⟨h₁, h₂⟩ := mem_firstAgents.mp ha
  exact mem_firstAgents.mpr ⟨h₁, h₂.trans h⟩

theorem take_firstAgents {k : Nat} (h : k ≤ n) : (firstAgents n).take k = firstAgents k := by
  rw [firstAgents, ← List.map_take, List.take_range, min_eq_left h, firstAgents]

theorem getElem?_firstAgents {i : Nat} (h : i < n) : (firstAgents n)[i]? = some (i + 1) := by
  rw [firstAgents, List.getElem?_map, List.getElem?_range h]
  rfl

theorem firstAgents_split {k : Nat} (h : k < n) :
    firstAgents n = firstAgents k ++ (k + 1) :: (firstAgents n).drop (k + 1) := by
  obtain ⟨hlen, hget⟩ := List.getElem?_eq_some_iff.mp (getElem?_firstAgents h)
  have hdrop := List.drop_eq_getElem_cons hlen
  rw [hget] at hdrop
  rw [← hdrop, ← take_firstAgents h.le, List.take_append_drop]

/-- A property holds of the first `n` agents, or there is a first of them without it. -/
theorem firstAgents_cases (p : Nat → Prop) (n : Nat) : (∀ a ∈ firstAgents n, p a) ∨
    ∃ k < n, (∀ a ∈ firstAgents k, p a) ∧ ¬ p (k + 1) := by
  induction n with
  | zero =>
    refine Or.inl fun a ha => ?_
    have := mem_firstAgents.mp ha
    omega
  | succ n ih =>
    rcases ih with hall | ⟨k, hk, hfirst⟩
    · by_cases hp : p (n + 1)
      · refine Or.inl fun a ha => ?_
        obtain ⟨h₁, h₂⟩ := mem_firstAgents.mp ha
        rcases Nat.le_succ_iff.mp h₂ with h₂ | rfl
        · exact hall a (mem_firstAgents.mpr ⟨h₁, h₂⟩)
        · exact hp
      · exact Or.inr ⟨n, Nat.lt_succ_self n, hall, hp⟩
    · exact Or.inr ⟨k, hk.trans (Nat.lt_succ_self n), hfirst⟩

end FirstAgents

theorem agents_ofNat (n : Nat) : (ofNat n).agents = firstAgents n := by
  have hf : (n : Rat).floor = n := Rat.floor_intCast n
  simp [ofNat, agents, hf, firstAgents]

theorem exists_agents (x : Number) : ∃ n, x.agents = firstAgents n := by
  cases x with
  | finite q => exact ⟨_, rfl⟩
  | nan => exact ⟨0, rfl⟩
  | infinite negative => exact ⟨0, rfl⟩

theorem lt_exactBound_of_mem_agents {x : Number} (hx : x.BelowExact) {a : Nat}
    (h : a ∈ x.agents) : a < exactBound := by
  cases x with
  | nan => cases hx
  | infinite negative => cases h
  | finite q =>
    obtain ⟨b, hb, rfl⟩ := List.mem_map.mp h
    rw [List.mem_range] at hb
    have hle : ((b + 1 : ℕ) : ℤ) ≤ q.floor := by omega
    have hq : ((b + 1 : ℕ) : ℚ) ≤ q := by exact_mod_cast Rat.le_floor_iff.mp hle
    exact_mod_cast hq.trans_lt hx

end AgentPrompts.Number
