import AgentPrompts.Proofs.Number.Nearest

/-! # Shortest decimals

The number that a decimal reads as depends on its value alone. A binary64 number has a
decimal of seventeen digits close enough to read back as the number, so the search for
the shortest decimal finds one that does.
-/

namespace AgentPrompts.Decimal

open Number

def value (d : Decimal) : Rat := d.digits * (10 : Rat) ^ d.exponent

/-- The number of digits before the point, where the value is large. -/
def magnitude (d : Decimal) : ℤ := digitCount d.digits + d.exponent

theorem zpow_pos_ten (e : ℤ) : (0 : Rat) < 10 ^ e := zpow_pos (by norm_num) e

theorem digitCount_pos (n : ℕ) : 0 < digitCount n := Nat.length_toDigits_pos

theorem zpow_digitCount_le {n : ℕ} (hn : n ≠ 0) :
    (10 : Rat) ^ ((digitCount n : ℤ) - 1) ≤ n ∧ (n : Rat) < 10 ^ (digitCount n : ℤ) := by
  have hpos := digitCount_pos n
  have hle (k : ℕ) (hk : 0 < k) : digitCount n ≤ k ↔ n < 10 ^ k :=
    Nat.length_toDigits_le_iff (by decide) hk
  constructor
  · have hexp : (digitCount n : ℤ) - 1 = ((digitCount n - 1 : ℕ) : ℤ) := by omega
    rw [hexp, zpow_natCast]
    rcases Nat.eq_zero_or_pos (digitCount n - 1) with h | h
    · rw [h, pow_zero]
      exact_mod_cast Nat.one_le_iff_ne_zero.mpr hn
    · have := (hle _ h).not.mp (by omega)
      exact_mod_cast not_lt.mp this
  · rw [zpow_natCast]
    exact_mod_cast (hle _ hpos).mp le_rfl

theorem decimalExponent_spec {q : Rat} (hq : 0 < q) :
    (10 : Rat) ^ decimalExponent q ≤ q ∧ q < 10 ^ (decimalExponent q + 1) := by
  have hnum : q.num.natAbs ≠ 0 := by
    have := Rat.num_pos.mpr hq
    omega
  obtain ⟨ha, ha'⟩ := zpow_digitCount_le hnum
  obtain ⟨hb, hb'⟩ := zpow_digitCount_le q.den_nz
  refine exponent_spec 10 (by decide) hq ha ?_ hb ?_ ?_
  · rwa [sub_add_cancel]
  · rwa [sub_add_cancel]
  · rw [decimalExponent, sub_sub_sub_cancel_right]
    rfl

section Value

variable {d d' : Decimal}

theorem magnitude_spec (h : d.digits ≠ 0) :
    (10 : Rat) ^ (d.magnitude - 1) ≤ d.value ∧ d.value < 10 ^ d.magnitude := by
  obtain ⟨hlow, hhigh⟩ := zpow_digitCount_le h
  have hunit := zpow_pos_ten d.exponent
  rw [value, magnitude, add_sub_right_comm, zpow_add₀ (by norm_num), zpow_add₀ (by norm_num)]
  exact ⟨mul_le_mul_of_nonneg_right hlow hunit.le, mul_lt_mul_of_pos_right hhigh hunit⟩

theorem value_eq_zero_iff : d.value = 0 ↔ d.digits = 0 := by
  rw [value, mul_eq_zero, or_iff_left (zpow_pos_ten _).ne', Nat.cast_eq_zero]

theorem toNumber_eq (d : Decimal) : d.toNumber =
    if d.digits = 0 ∨ d.magnitude < -330 then .zero
    else if 310 < d.magnitude then .infinite d.negative
    else nearest (if d.negative then -d.value else d.value) := rfl

theorem toNumber_congr (hsign : d.negative = d'.negative) (h : d.value = d'.value) :
    d.toNumber = d'.toNumber := by
  have hzero : d.digits = 0 ↔ d'.digits = 0 := by
    rw [← value_eq_zero_iff, ← value_eq_zero_iff, h]
  by_cases hd : d.digits = 0
  · rw [toNumber_eq, toNumber_eq, if_pos (Or.inl hd), if_pos (Or.inl (hzero.mp hd))]
  · obtain ⟨hlow, hhigh⟩ := magnitude_spec hd
    obtain ⟨hlow', hhigh'⟩ := magnitude_spec (hzero.not.mp hd)
    rw [← h] at hlow' hhigh'
    have hmagnitude := exponent_unique 10 (by decide) hlow (by rwa [sub_add_cancel])
      hlow' (by rwa [sub_add_cancel])
    rw [toNumber_eq, toNumber_eq, sub_left_injective hmagnitude, hsign, h]
    simp only [hzero]

end Value

section Close

variable {q : Rat}

theorem range_of_nearestPositive (hq : 0 < q) (h : nearestPositive q = finite q) :
    (10 : Rat) ^ (-329 : ℤ) ≤ q / 2 ∧ 2 * q < 10 ^ (309 : ℤ) := by
  obtain ⟨m, hm, hfinite⟩ := multiple_of_nearestPositive h
  constructor
  · have hlast : (2 : Rat) ^ (-1074 : ℤ) ≤ q := by
      have hexp := lastExponent_le hq hm
      have : (-1074 : ℤ) ≤ binaryExponent q := by
        rw [lastExponent] at hexp
        omega
      exact (zpow_le_zpow_two this).trans (binaryExponent_spec hq).1
    have hsmall : (10 : Rat) ^ (-329 : ℤ) ≤ 2 ^ (-1074 : ℤ) / 2 := by
      decide +kernel
    linarith
  · have hlarge : 2 * (2 : Rat) ^ (1024 : ℤ) < 10 ^ (309 : ℤ) := by decide +kernel
    exact (mul_lt_mul_of_pos_left hfinite two_pos).trans hlarge

/-- A decimal close to a positive binary64 number reads as that number. -/
theorem toNumber_of_close {n : ℕ} {g : ℤ} (hq : 0 < q) (h : nearestPositive q = finite q)
    (hclose : |(n : Rat) * 10 ^ g - q| < q / 2 ^ 54) :
    (Decimal.mk false n g).toNumber = finite q := by
  obtain ⟨hlow, hhigh⟩ := abs_lt.mp hclose
  obtain ⟨hmin, hmax⟩ := range_of_nearestPositive hq h
  have hnear : q / 2 ^ 54 ≤ q / 2 := by
    exact div_le_div_of_nonneg_left hq.le (by norm_num) (by norm_num)
  have hvalue : 0 < (n : Rat) * 10 ^ g := by linarith
  have hn : n ≠ 0 := by
    rintro rfl
    simp at hvalue
  obtain ⟨hlower, hupper⟩ := magnitude_spec (d := ⟨false, n, g⟩) hn
  have hmagnitude : -329 < (Decimal.mk false n g).magnitude := by
    refine (zpow_lt_zpow_iff_right₀ (by norm_num : (1 : Rat) < 10)).mp (lt_of_le_of_lt ?_ hupper)
    exact hmin.trans (show q / 2 ≤ (n : Rat) * 10 ^ g by linarith)
  have hmagnitude' : (Decimal.mk false n g).magnitude - 1 < 309 := by
    refine (zpow_lt_zpow_iff_right₀ (by norm_num : (1 : Rat) < 10)).mp (hlower.trans_lt ?_)
    exact lt_trans (show (n : Rat) * 10 ^ g < 2 * q by linarith) hmax
  rw [toNumber_eq, if_neg (by rintro (h | h); exacts [hn h, by omega]), if_neg (by omega)]
  exact (nearest_of_pos hvalue).trans (nearestPositive_of_close hq h hclose)

theorem head_neighbours (hq : 0 < q) (g : ℤ) : ∃ n ds, neighbours q g = ⟨false, n, g⟩ :: ds ∧
    |(n : Rat) * 10 ^ g - q| ≤ 10 ^ g / 2 := by
  have hunit := zpow_pos_ten g
  set low := (q / (10 : Rat) ^ g).floor.toNat with hlow
  have hfloor : (low : Rat) = (q / (10 : Rat) ^ g).floor := by
    have hnonneg : (0 : ℤ) ≤ (q / (10 : Rat) ^ g).floor :=
      Rat.le_floor_iff.mpr (by simpa using (div_pos hq hunit).le)
    rw [hlow, ← Int.cast_natCast, Int.toNat_of_nonneg hnonneg]
  obtain ⟨hle, hlt⟩ := floor_eq_iff.mp (rfl : (q / (10 : Rat) ^ g).floor = _)
  rw [← hfloor] at hle hlt
  have hscale (n : ℕ) (hn : |(n : Rat) - q / 10 ^ g| ≤ 1 / 2) :
      |(n : Rat) * 10 ^ g - q| ≤ 10 ^ g / 2 := by
    have hmul : (n : Rat) * 10 ^ g - q = (n - q / 10 ^ g) * 10 ^ g := by field_simp
    rw [hmul, abs_mul, abs_of_pos hunit]
    linarith [mul_le_mul_of_nonneg_right hn hunit.le]
  have hlowClose (h : q / 10 ^ g - low ≤ 1 / 2) : |(low : Rat) - q / 10 ^ g| ≤ 1 / 2 :=
    abs_le.mpr ⟨by linarith, by linarith⟩
  have hhighClose (h : 1 / 2 ≤ q / 10 ^ g - low) : |((low + 1 : ℕ) : Rat) - q / 10 ^ g| ≤ 1 / 2 :=
    abs_le.mpr ⟨by push_cast; linarith, by push_cast; linarith⟩
  simp only [neighbours, ← hlow]
  split
  next heq =>
    split
    · exact ⟨low, _, rfl, hscale low (hlowClose heq.le)⟩
    · exact ⟨low + 1, _, rfl, hscale (low + 1) (hhighClose heq.ge)⟩
  next =>
    split
    next h => exact ⟨low, _, rfl, hscale low (hlowClose h.le)⟩
    next h => exact ⟨low + 1, _, rfl, hscale (low + 1) (hhighClose (not_lt.mp h))⟩

theorem exists_neighbour (hq : 0 < q) (h : nearestPositive q = finite q) :
    ∃ d ∈ neighbours q (decimalExponent q - 16), d.toNumber = finite q := by
  obtain ⟨n, ds, hds, hclose⟩ := head_neighbours hq (decimalExponent q - 16)
  refine ⟨_, hds ▸ List.mem_cons_self, toNumber_of_close hq h (hclose.trans_lt ?_)⟩
  have hexp := (decimalExponent_spec hq).1
  rw [zpow_sub₀ (by norm_num), div_div, div_lt_iff₀ (by norm_num)]
  have hratio : q < q / 2 ^ 54 * (10 ^ (16 : ℤ) * 2) := by
    rw [div_mul_eq_mul_div, lt_div_iff₀ (by norm_num)]
    exact mul_lt_mul_of_pos_left (by norm_num) hq
  exact hexp.trans_lt hratio

theorem mem_neighbours_iff {g : ℤ} {d : Decimal} : d ∈ neighbours q g ↔
    ∃ n, d = ⟨false, n, g⟩ ∧
      (n = (q / (10 : Rat) ^ g).floor.toNat ∨ n = (q / (10 : Rat) ^ g).floor.toNat + 1) := by
  have hboth : d ∈ [(q / (10 : Rat) ^ g).floor.toNat, (q / (10 : Rat) ^ g).floor.toNat + 1].map
      (fun n => Decimal.mk false n g) ↔ ∃ n, d = ⟨false, n, g⟩ ∧
        (n = (q / (10 : Rat) ^ g).floor.toNat ∨ n = (q / (10 : Rat) ^ g).floor.toNat + 1) := by
    simp [and_or_left, exists_or]
  rw [← hboth]
  simp only [neighbours]
  split <;> split
  · rfl
  · exact List.mem_reverse
  · rfl
  · exact List.mem_reverse

/-- The shortest decimal of a binary64 number reads back as the number. -/
theorem shortest_spec (hq : 0 < q) (h : nearestPositive q = finite q) :
    (shortest q).toNumber = finite q ∧ (shortest q).negative = false := by
  obtain ⟨d, hd, hback⟩ := exists_neighbour hq h
  rw [shortest]
  set found := List.findSome? _ _ with hfound
  cases hcase : found with
  | some d' =>
    obtain ⟨g, -, hg⟩ := List.exists_of_findSome?_eq_some (hfound.symm.trans hcase)
    have hreads := List.find?_some hg
    obtain ⟨n, rfl, -⟩ := mem_neighbours_iff.mp (List.mem_of_find?_eq_some hg)
    exact ⟨eq_of_beq hreads, rfl⟩
  | none =>
    have hnone := List.findSome?_eq_none_iff.mp (hfound.symm.trans hcase)
      (decimalExponent q - 16) (List.mem_map.mpr ⟨16, by simp, rfl⟩)
    have := List.find?_eq_none.mp hnone d hd
    rw [hback] at this
    exact absurd (beq_self_eq_true _) this

theorem digits_shortest_ne_zero (hq : 0 < q) (h : nearestPositive q = finite q) :
    (shortest q).digits ≠ 0 := by
  intro hzero
  have hreads := (shortest_spec hq h).1
  rw [toNumber_eq, if_pos (Or.inl hzero)] at hreads
  exact hq.ne (Number.finite.inj hreads)

end Close

end AgentPrompts.Decimal
