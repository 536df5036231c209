import AgentPrompts.Proofs.Number.Natural

/-! # Fifteen significant digits

A decimal is rounded by so little that no two decimals of fifteen digits have the same nearest
binary64 number. The search for the shortest decimal tries the coarser grids first, so it ends
at the decimal of fifteen digits if there is one.
-/

namespace AgentPrompts.Number

theorem abs_roundEven_sub_le (q : Rat) : |(roundEven q : Rat) - q| ≤ 1 / 2 := by
  obtain ⟨hlow, hhigh⟩ := floor_spec q
  rw [abs_le]
  rcases roundEven_spec q with ⟨hround, hle, -⟩ | ⟨hround, hge⟩
  · rw [hround]
    constructor <;> linarith
  · rw [hround, Int.cast_add, Int.cast_one]
    constructor <;> linarith

/-- A number that is not small is rounded by half of the last of 53 bits at most. -/
theorem abs_sub_le_of_nearest {v q : Rat} (hv : 1 ≤ v) (h : nearest v = finite q) :
    |v - q| ≤ v / 2 ^ 53 := by
  have hpos : 0 < v := zero_lt_one.trans_le hv
  obtain ⟨hlow, hhigh⟩ := binaryExponent_spec hpos
  have hexp : 0 ≤ binaryExponent v := by
    have hone : (2 : Rat) ^ (0 : ℤ) < 2 ^ (binaryExponent v + 1) := by
      rw [zpow_zero]
      exact hv.trans_lt hhigh
    have := (zpow_lt_zpow_iff_right₀ (by norm_num)).mp hone
    omega
  have hlast : max (binaryExponent v - 52) (-1074) = binaryExponent v - 52 := by omega
  rw [nearest_of_pos hpos, nearestPositive, hlast] at h
  generalize hunit : (2 : Rat) ^ (binaryExponent v - 52) = unit at h
  have hunitPos : 0 < unit := hunit ▸ zpow_pos_two _
  have hq : roundEven (v / unit) * unit = q := by
    split at h
    next => cases h
    next => exact Number.finite.inj h
  have hclose := abs_roundEven_sub_le (v / unit)
  have hscaled : v - q = (v / unit - roundEven (v / unit)) * unit := by
    rw [← hq]
    field_simp
  have hbound : unit / 2 ≤ v / 2 ^ 53 := by
    have hhalf : (2 : Rat) ^ (52 : ℤ) * 2 = 2 ^ 53 := by norm_num
    rw [← hunit, zpow_sub₀ (by norm_num), div_div, hhalf]
    exact div_le_div_of_nonneg_right hlow (by norm_num)
  rw [hscaled, abs_mul, abs_of_pos hunitPos, abs_sub_comm]
  linarith [mul_le_mul_of_nonneg_right hclose hunitPos.le]

theorem abs_sub_lt_of_nearest {v q unit : Rat} (hv : 1 ≤ v) (h : nearest v = finite q)
    (hq : q < 10 ^ 15 * unit) : |v - q| < unit / 2 := by
  have hclose := abs_sub_le_of_nearest hv h
  have hhigh := (abs_le.mp hclose).2
  refine hclose.trans_lt ?_
  linarith

theorem eq_of_close {q unit : Rat} {m n : ℕ} (hm : |m * unit - q| < unit / 2)
    (hn : |n * unit - q| < unit / 2) : m = n := by
  obtain ⟨hm₁, hm₂⟩ := abs_lt.mp hm
  obtain ⟨hn₁, hn₂⟩ := abs_lt.mp hn
  have hunit : 0 ≤ unit := by linarith
  have hle {a b : ℕ} (h : a * unit < b * unit + unit) : a ≤ b := by
    rw [← add_one_mul] at h
    have hlt := lt_of_mul_lt_mul_right h hunit
    exact Nat.lt_succ_iff.mp (by exact_mod_cast hlt)
  exact le_antisymm (hle (by linarith)) (hle (by linarith))

end AgentPrompts.Number

namespace AgentPrompts.Decimal

open Number

variable {q : Rat} {d : Decimal}

theorem mem_neighbours_of_close {n : ℕ} {g : ℤ} (hq : 0 < q)
    (h : |(n : Rat) * 10 ^ g - q| < 10 ^ g) : Decimal.mk false n g ∈ neighbours q g := by
  have hunit := zpow_pos_ten g
  obtain ⟨hlow, hhigh⟩ := abs_lt.mp h
  have hbelow : q / 10 ^ g < n + 1 := by
    rw [div_lt_iff₀ hunit]
    linarith
  have habove : (n : Rat) - 1 < q / 10 ^ g := by
    rw [lt_div_iff₀ hunit]
    linarith
  obtain ⟨hfloor, hfloor'⟩ := floor_spec (q / (10 : Rat) ^ g)
  have hnonneg : 0 ≤ (q / (10 : Rat) ^ g).floor :=
    Rat.le_floor_iff.mpr (by simpa using (div_pos hq hunit).le)
  have hle : (q / (10 : Rat) ^ g).floor < n + 1 := by exact_mod_cast hfloor.trans_lt hbelow
  have hge : (n : ℤ) - 1 < (q / (10 : Rat) ^ g).floor + 1 := by
    exact_mod_cast habove.trans hfloor'
  exact mem_neighbours_iff.mpr ⟨n, rfl, by omega⟩

/-- The shortest decimal stands on no finer grid than a decimal that reads back. -/
theorem le_exponent_shortest {j : ℕ} (hj : j < 17)
    (hd : d ∈ neighbours q (decimalExponent q - j)) (hback : d.toNumber = finite q) :
    decimalExponent q - j ≤ (shortest q).exponent := by
  have hgrid : decimalExponent q - j ∈
      (List.range 17).map fun n : ℕ => decimalExponent q - n :=
    List.mem_map.mpr ⟨j, List.mem_range.mpr hj, rfl⟩
  have hsorted : ((List.range 17).map fun n : ℕ => decimalExponent q - n).Pairwise (· > ·) := by
    refine List.pairwise_lt_range.map _ fun a b hab => ?_
    omega
  have hfinds : ¬ (neighbours q (decimalExponent q - j)).find? (·.toNumber == finite q) = none := by
    intro hnone
    have := List.find?_eq_none.mp hnone d hd
    rw [hback] at this
    exact this (beq_self_eq_true _)
  rw [shortest]
  set found := List.findSome? _ _ with hfound
  cases hcase : found with
  | none => exact absurd (List.findSome?_eq_none_iff.mp (hfound.symm.trans hcase) _ hgrid) hfinds
  | some d' =>
    obtain ⟨coarser, g, finer, hsplit, hg, hnone⟩ :=
      List.findSome?_eq_some_iff.mp (hfound.symm.trans hcase)
    obtain ⟨n, rfl, -⟩ := mem_neighbours_iff.mp (List.mem_of_find?_eq_some hg)
    rw [hsplit] at hgrid hsorted
    rcases List.mem_append.mp hgrid with hmem | hmem
    · exact absurd (hnone _ hmem) hfinds
    · rcases List.mem_cons.mp hmem with heq | hmem
      · exact heq.le
      · have hfiner := List.rel_of_pairwise_cons (List.pairwise_append.mp hsorted).2.1 hmem
        exact hfiner.le

end AgentPrompts.Decimal

namespace AgentPrompts

open Number Decimal

section Significant

variable {q : Rat} {d : Decimal} {m n k g : ℕ}

theorem Decimal.nearest_of_toNumber (h : d.toNumber = finite q) (hq : q ≠ 0)
    (hsign : d.negative = false) : nearest d.value = finite q := by
  rw [toNumber_eq, hsign] at h
  split at h
  next => exact absurd (Number.finite.inj h).symm hq
  next =>
    split at h
    next => cases h
    next => exact h

theorem Decimal.toNumber_of_eq_mul (h : n = m * 10 ^ g) :
    (Decimal.mk false m g).toNumber = nearest n := by
  rw [← toNumber_natural]
  refine toNumber_congr rfl ?_
  rw [value, value, zpow_natCast, zpow_zero, mul_one, h]
  push_cast
  rfl

theorem Decimal.exists_value_eq_mul (h : (g : ℤ) ≤ d.exponent) :
    ∃ m : ℕ, d.value = m * (10 : Rat) ^ g := by
  refine ⟨d.digits * 10 ^ (d.exponent - g).toNat, ?_⟩
  have hexponent : d.exponent = ((d.exponent - g).toNat : ℤ) + g := by omega
  conv_lhs => rw [value, hexponent, zpow_add₀ (by norm_num), zpow_natCast, zpow_natCast]
  push_cast
  ring

theorem Decimal.exists_value_shortest (hq : 0 < q) (h : nearestPositive q = finite q)
    (hgrid : (g : ℤ) ≤ (shortest q).exponent) : ∃ m : ℕ, (shortest q).value = m * (10 : Rat) ^ g ∧
      1 ≤ (m : Rat) * 10 ^ g ∧ nearest (m * 10 ^ g) = finite q := by
  obtain ⟨hreads, hsign⟩ := shortest_spec hq h
  obtain ⟨m, hm⟩ := exists_value_eq_mul hgrid
  have hne : m ≠ 0 := by
    rintro rfl
    rw [Nat.cast_zero, zero_mul, value_eq_zero_iff] at hm
    exact digits_shortest_ne_zero hq h hm
  refine ⟨m, hm, ?_, hm ▸ nearest_of_toNumber hreads hq.ne' hsign⟩
  exact_mod_cast Nat.one_le_iff_ne_zero.mpr (mul_ne_zero hne (by positivity))

theorem Decimal.exists_grid (hq : (2 : Rat) ^ 53 ≤ q) : ∃ g : ℕ, decimalExponent q - (14 : ℕ) = g ∧
    10 ^ 14 * (10 : Rat) ^ g ≤ q ∧ q < 10 ^ 15 * 10 ^ g := by
  have hpos : 0 < q := by linarith
  obtain ⟨hlow, hhigh⟩ := decimalExponent_spec hpos
  have hexp : 15 < decimalExponent q + 1 := by
    have hlt : (10 : Rat) ^ (15 : ℤ) < 10 ^ (decimalExponent q + 1) :=
      (show (10 : Rat) ^ (15 : ℤ) ≤ 2 ^ 53 by norm_num).trans_lt (hq.trans_lt hhigh)
    exact (zpow_lt_zpow_iff_right₀ (by norm_num)).mp hlt
  obtain ⟨g, hg⟩ := Int.eq_ofNat_of_zero_le (show 0 ≤ decimalExponent q - (14 : ℕ) by omega)
  have hlast : decimalExponent q = ((14 + g : ℕ) : ℤ) := by omega
  have hnext : decimalExponent q + 1 = ((15 + g : ℕ) : ℤ) := by omega
  refine ⟨g, hg, ?_, ?_⟩
  · rwa [hlast, zpow_natCast, pow_add] at hlow
  · rwa [hnext, zpow_natCast, pow_add] at hhigh

/-- Fifteen digits of a number that is close reach down to the grid of the fifteenth digit. -/
theorem exists_eq_mul_of_close (hm : m < 10 ^ 15) (hq : 10 ^ 14 * (10 : Rat) ^ g ≤ q)
    (hclose : |((m * 10 ^ k : ℕ) : Rat) - q| ≤ (m * 10 ^ k : ℕ) / 2 ^ 53) :
    ∃ a, m * 10 ^ k = a * 10 ^ g := by
  rcases le_or_gt g k with hle | hlt
  · refine ⟨m * 10 ^ (k - g), ?_⟩
    rw [mul_assoc, ← pow_add, Nat.sub_add_cancel hle]
  · -- otherwise the number lies a whole step of its own grid below
    have hunit : (0 : Rat) < 10 ^ k := by positivity
    have hstep : (10 : Rat) * 10 ^ k ≤ 10 ^ g := by
      rw [← pow_succ']
      exact pow_le_pow_right₀ (by norm_num) hlt
    have hdigits : (m : Rat) * 10 ^ k ≤ (10 ^ 15 - 1) * 10 ^ k := by
      refine mul_le_mul_of_nonneg_right ?_ hunit.le
      have : (m : Rat) + 1 ≤ 10 ^ 15 := by exact_mod_cast hm
      linarith
    push_cast at hclose
    have hbelow := (abs_le.mp hclose).1
    exfalso
    linarith

theorem lt_overflow (h : n < 10 ^ 21) : n < overflow := by
  have hsmall : 10 ^ 21 ≤ 2 ^ 53 * 2 ^ 970 := by
    have htop : 2 ^ 20 ≤ 2 ^ 970 := pow_le_pow_right₀ one_le_two (by decide)
    exact (show 10 ^ 21 ≤ 2 ^ 53 * 2 ^ 20 by decide).trans (Nat.mul_le_mul_left _ htop)
  exact h.trans_le (hsmall.trans le_overflow)

/-- Below `10 ^ 21` a number of at most fifteen significant digits is exact. -/
theorem isExact_of_significant (hm : m < 10 ^ 15) (hlt : m * 10 ^ k < 10 ^ 21) :
    IsExact (m * 10 ^ k) := by
  rcases lt_or_ge (m * 10 ^ k) exactBound with hsmall | hlarge
  · exact Or.inl hsmall
  rcases nearest_cases (m * 10 ^ k) with ⟨hover, -⟩ | ⟨-, near, hnear, hbinary, -, habove⟩
  · exact absurd hover (lt_overflow hlt).not_ge
  refine Or.inr ⟨hlt, near, hnear, ?_⟩
  have hge : (2 : Rat) ^ 53 ≤ near := by exact_mod_cast exactBound_eq ▸ habove hlarge
  have hpos : (0 : Rat) < near := by linarith
  have hself : nearestPositive near = finite near := (nearest_of_pos hpos).symm.trans hbinary
  have hone : (1 : Rat) ≤ (m * 10 ^ k : ℕ) := by
    exact_mod_cast (show 1 ≤ exactBound by decide).trans hlarge
  obtain ⟨g, hg, hlow, hhigh⟩ := exists_grid hge
  obtain ⟨a, ha⟩ := exists_eq_mul_of_close hm hlow (abs_sub_le_of_nearest hone hnear)
  have hclose := abs_sub_lt_of_nearest hone hnear hhigh
  rw [ha] at hnear hclose ⊢
  -- the number reads back on this grid, so the shortest decimal stands on it as well
  have hreads := (toNumber_of_eq_mul rfl).trans hnear
  push_cast at hclose ⊢
  have hmem : Decimal.mk false a g ∈ neighbours near (decimalExponent near - (14 : ℕ)) := by
    rw [hg]
    refine mem_neighbours_of_close hpos ?_
    rw [zpow_natCast]
    linarith [abs_nonneg ((a : Rat) * 10 ^ g - near)]
  have hgrid := le_exponent_shortest (by decide) hmem hreads
  rw [hg] at hgrid
  obtain ⟨b, hvalue, hone', hnear'⟩ := exists_value_shortest hpos hself hgrid
  rw [hvalue, eq_of_close (abs_sub_lt_of_nearest hone' hnear' hhigh) hclose]

end Significant

end AgentPrompts
