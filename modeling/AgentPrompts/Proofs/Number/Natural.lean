import Mathlib.Data.Nat.Log
import AgentPrompts.Proofs.Number.Agents
import AgentPrompts.Proofs.Number.Digits

/-! # Natural numbers as binary64 numbers

The binary64 number nearest to a natural number is a natural number, unless it is infinite. From
`2 ^ 53` on it may be another one, and what is written of it may be another one again.
-/

namespace AgentPrompts.Number

section RoundEven

variable {q : Rat} {m : ℤ}

theorem roundEven_spec (q : Rat) :
    roundEven q = q.floor ∧ q ≤ q.floor + 1 / 2 ∧ (q = q.floor + 1 / 2 → q.floor % 2 = 0) ∨
    roundEven q = q.floor + 1 ∧ q.floor + 1 / 2 ≤ q := by
  rw [roundEven]
  split
  next hlt => exact Or.inl ⟨rfl, by linarith, fun h => by linarith⟩
  next hlt =>
    have hge : (q.floor : Rat) + 1 / 2 ≤ q := by linarith
    split
    next hgt => exact Or.inr ⟨rfl, hge⟩
    next hgt =>
      split
      next heven => exact Or.inl ⟨rfl, by linarith, fun _ => heven⟩
      next hodd => exact Or.inr ⟨rfl, hge⟩

theorem floor_spec (q : Rat) : (q.floor : Rat) ≤ q ∧ q < q.floor + 1 := floor_eq_iff.mp rfl

theorem le_roundEven (h : m ≤ q) : m ≤ roundEven q := by
  have hfloor : m ≤ q.floor := Rat.le_floor_iff.mpr h
  rcases roundEven_spec q with ⟨hround, -⟩ | ⟨hround, -⟩
  · omega
  · omega

theorem roundEven_le (h : q ≤ m) : roundEven q ≤ m := by
  have hfloor := (floor_spec q).1.trans h
  rcases roundEven_spec q with ⟨hround, -⟩ | ⟨hround, hhalf⟩
  · rw [hround]
    exact_mod_cast hfloor
  · have hlt : (q.floor : Rat) < m := by linarith
    have : q.floor < m := by exact_mod_cast hlt
    omega

theorem le_roundEven_iff (hm : m % 2 = 0) : m ≤ roundEven q ↔ (m : Rat) - 1 / 2 ≤ q := by
  obtain ⟨hlow, hhigh⟩ := floor_spec q
  constructor
  · intro h
    rcases roundEven_spec q with ⟨hround, -⟩ | ⟨hround, hhalf⟩
    · have hle : (m : Rat) ≤ q.floor := by exact_mod_cast hround ▸ h
      linarith
    · have hle : (m : Rat) ≤ q.floor + 1 := by exact_mod_cast hround ▸ h
      linarith
  · intro h
    have hnext : m ≤ q.floor + 1 := by
      have hlt : (m : Rat) < (q.floor + 1 : ℤ) + 1 := by
        push_cast
        linarith
      have : m < q.floor + 1 + 1 := by exact_mod_cast hlt
      omega
    rcases roundEven_spec q with ⟨hround, hle, htie⟩ | ⟨hround, -⟩
    · -- half a step below the even number the odd one is not taken
      have hne : m ≠ q.floor + 1 := by
        rintro rfl
        push_cast at h
        have := htie (le_antisymm hle (by linarith))
        omega
      omega
    · omega

end RoundEven

/-- From this number on, half way between the greatest binary64 number and `2 ^ 1024`, natural
numbers are rounded to infinity. -/
def overflow : ℕ := (2 ^ 54 - 1) * 2 ^ 970

section Natural

variable {n k : ℕ}

theorem exactBound_eq : exactBound = 2 ^ 53 := by decide

theorem exists_binade (hn : exactBound ≤ n) :
    ∃ k, 1 ≤ k ∧ 2 ^ 52 * 2 ^ k ≤ n ∧ n < 2 ^ 53 * 2 ^ k := by
  rw [exactBound_eq] at hn
  have hpos : n ≠ 0 := by omega
  have hlog : 53 ≤ n.log2 := (Nat.le_log2 hpos).mpr hn
  have hsplit : n.log2 = 52 + (n.log2 - 52) := by omega
  have hlow := Nat.log2_self_le hpos
  have hhigh : n < 2 ^ (n.log2 + 1) := Nat.lt_log2_self
  refine ⟨n.log2 - 52, by omega, ?_, ?_⟩
  · rwa [← pow_add, ← hsplit]
  · rwa [← pow_add, show 53 + (n.log2 - 52) = n.log2 + 1 by omega]

theorem binaryExponent_of_binade (hlow : 2 ^ 52 * 2 ^ k ≤ n) (hhigh : n < 2 ^ 53 * 2 ^ k) :
    binaryExponent n = (52 : ℕ) + k := by
  have hpower (a : ℕ) : (2 : Rat) ^ ((a : ℤ) + k) = ((2 ^ a * 2 ^ k : ℕ) : Rat) := by
    rw [zpow_add₀ (by norm_num), zpow_natCast, zpow_natCast]
    push_cast
    rfl
  apply binaryExponent_eq
  · rw [hpower]
    exact_mod_cast hlow
  · rw [add_right_comm, ← Nat.cast_add_one, hpower]
    exact_mod_cast hhigh

def significand (n k : ℕ) : ℕ := (roundEven ((n : Rat) / 2 ^ k)).toNat

theorem natCast_significand (n k : ℕ) :
    (significand n k : ℤ) = roundEven ((n : Rat) / 2 ^ k) := by
  apply Int.toNat_of_nonneg
  apply le_roundEven
  positivity

theorem significand_bounds (hlow : 2 ^ 52 * 2 ^ k ≤ n) (hhigh : n < 2 ^ 53 * 2 ^ k) :
    2 ^ 52 ≤ significand n k ∧ significand n k ≤ 2 ^ 53 := by
  have hunit : (0 : Rat) < 2 ^ k := by positivity
  have hmin : 2 ^ 52 ≤ roundEven ((n : Rat) / 2 ^ k) := by
    apply le_roundEven
    rw [le_div_iff₀ hunit]
    exact_mod_cast hlow
  have hmax : roundEven ((n : Rat) / 2 ^ k) ≤ 2 ^ 53 := by
    apply roundEven_le
    rw [div_le_iff₀ hunit]
    exact_mod_cast hhigh.le
  rw [← natCast_significand] at hmin hmax
  constructor <;> omega

theorem nearest_of_binade (hlow : 2 ^ 52 * 2 ^ k ≤ n) (hhigh : n < 2 ^ 53 * 2 ^ k) :
    nearest n = if 2 ^ 1024 ≤ significand n k * 2 ^ k then infinite false
      else ofNat (significand n k * 2 ^ k) := by
  have hpos : (0 : Rat) < n := by
    have : 0 < 2 ^ 52 * 2 ^ k := by positivity
    exact_mod_cast this.trans_le hlow
  have hlast : max (binaryExponent n - 52) (-1074) = k := by
    rw [binaryExponent_of_binade hlow hhigh]
    omega
  have hvalue : (roundEven ((n : Rat) / 2 ^ k) : Rat) * 2 ^ k =
      ((significand n k * 2 ^ k : ℕ) : Rat) := by
    rw [← natCast_significand]
    push_cast
    rfl
  have hinfinite : (2 : Rat) ^ (1024 : ℤ) ≤ ((significand n k * 2 ^ k : ℕ) : Rat) ↔
      2 ^ 1024 ≤ significand n k * 2 ^ k := by
    have hcast : ((2 ^ 1024 : ℕ) : Rat) = 2 ^ (1024 : ℤ) := by
      rw [Nat.cast_pow, Nat.cast_ofNat]
      rfl
    rw [← hcast, Nat.cast_le]
  rw [nearest_of_pos hpos, nearestPositive, hlast]
  simp only [zpow_natCast]
  rw [hvalue, ofNat, if_congr hinfinite rfl rfl]

/-- In the last binade the significand is rounded up to a power of two from half a step below. -/
theorem le_significand_iff (n : ℕ) : 2 ^ 53 ≤ significand n 971 ↔ overflow ≤ n := by
  have hunit : (0 : Rat) < 2 ^ 971 := by positivity
  have hhalf : (((2 ^ 53 : ℤ) : Rat) - 1 / 2) * 2 ^ 971 = overflow := by
    rw [overflow, pow_succ (2 : Rat) 970, Nat.cast_mul, Nat.cast_pow, Nat.cast_ofNat]
    generalize (2 : Rat) ^ 970 = unit
    norm_num
    ring
  have hround : 2 ^ 53 ≤ roundEven ((n : Rat) / 2 ^ 971) ↔ overflow ≤ n := by
    rw [le_roundEven_iff (by decide), le_div_iff₀ hunit, hhalf, Nat.cast_le]
  rw [← hround, ← natCast_significand]
  omega

theorem overflow_le : overflow ≤ 2 ^ 1024 := by
  have htop : (2 : ℕ) ^ 1024 = 2 ^ 54 * 2 ^ 970 := by rw [← pow_add]
  rw [htop, overflow]
  exact Nat.mul_le_mul_right _ (by decide)

theorem le_overflow : 2 ^ 53 * 2 ^ 970 ≤ overflow := Nat.mul_le_mul_right _ (by decide)

theorem overflow_iff (hlow : 2 ^ 52 * 2 ^ k ≤ n) (hhigh : n < 2 ^ 53 * 2 ^ k) :
    2 ^ 1024 ≤ significand n k * 2 ^ k ↔ overflow ≤ n := by
  obtain ⟨hmin, hmax⟩ := significand_bounds hlow hhigh
  rcases lt_trichotomy k 971 with hk | rfl | hk
  · have hunit : 2 ^ k ≤ 2 ^ 970 := pow_le_pow_right₀ one_le_two (by omega)
    have htop : 2 ^ (53 + 970) < 2 ^ 1024 := pow_lt_pow_right₀ one_lt_two (by decide)
    rw [pow_add] at htop
    refine iff_of_false (not_le.mpr ?_) (not_le.mpr ?_)
    · exact (Nat.mul_le_mul hmax hunit).trans_lt htop
    · exact hhigh.trans_le ((Nat.mul_le_mul_left _ hunit).trans le_overflow)
  · have htop : (2 : ℕ) ^ 1024 = 2 ^ 53 * 2 ^ 971 := by rw [← pow_add]
    rw [htop, ← le_significand_iff]
    exact Nat.mul_le_mul_right_iff (pow_pos two_pos 971)
  · have hunit : 2 ^ 972 ≤ 2 ^ k := pow_le_pow_right₀ one_le_two (by omega)
    have htop : (2 : ℕ) ^ 1024 = 2 ^ 52 * 2 ^ 972 := by rw [← pow_add]
    refine iff_of_true ?_ ?_
    · exact htop.trans_le (Nat.mul_le_mul hmin hunit)
    · exact (overflow_le.trans_eq htop).trans ((Nat.mul_le_mul_left _ hunit).trans hlow)

theorem significand_multiple (s k : ℕ) : significand (s * 2 ^ k) k = s := by
  have hunit : (2 : Rat) ^ k ≠ 0 := by positivity
  have hdiv : ((s * 2 ^ k : ℕ) : Rat) / 2 ^ k = (s : ℤ) := by
    push_cast
    exact mul_div_cancel_right₀ _ hunit
  have hround : roundEven ((s * 2 ^ k : ℕ) / 2 ^ k) = s := by
    rw [hdiv]
    exact le_antisymm (roundEven_le le_rfl) (le_roundEven le_rfl)
  rw [significand, hround, Int.toNat_natCast]

theorem nearest_multiple {s : ℕ} (hmin : 2 ^ 52 ≤ s) (hmax : s ≤ 2 ^ 53)
    (hfinite : s * 2 ^ k < 2 ^ 1024) : nearest (s * 2 ^ k : ℕ) = ofNat (s * 2 ^ k) := by
  have hbinade {s k : ℕ} (hmin : 2 ^ 52 ≤ s) (hmax : s < 2 ^ 53) (hfinite : s * 2 ^ k < 2 ^ 1024) :
      nearest (s * 2 ^ k : ℕ) = ofNat (s * 2 ^ k) := by
    have hhigh := Nat.mul_lt_mul_of_pos_right hmax (pow_pos two_pos k)
    rw [nearest_of_binade (Nat.mul_le_mul_right _ hmin) hhigh, significand_multiple,
      if_neg hfinite.not_ge]
  rcases hmax.lt_or_eq with hlt | rfl
  · exact hbinade hmin hlt hfinite
  · -- the next power of two is a significand of the next binade
    have hnext : 2 ^ 53 * 2 ^ k = 2 ^ 52 * 2 ^ (k + 1) := by ring
    rw [hnext] at hfinite ⊢
    exact hbinade le_rfl (by decide) hfinite

/-- A natural number is rounded to a natural number, below `2 ^ 53` to itself, unless it is
rounded to infinity. -/
theorem nearest_cases (n : ℕ) : overflow ≤ n ∧ nearest n = infinite false ∨
    n < overflow ∧ ∃ m, nearest n = ofNat m ∧ (ofNat m).IsBinary64 ∧
      (n < exactBound → m = n) ∧ (exactBound ≤ n → exactBound ≤ m) := by
  rcases lt_or_ge n exactBound with hn | hn
  · have hsmall : n < overflow := by
      have hbound : exactBound ≤ 2 ^ 53 * 2 ^ 970 := by
        rw [exactBound_eq]
        exact Nat.le_mul_of_pos_right _ (pow_pos two_pos 970)
      exact hn.trans_le (hbound.trans le_overflow)
    have hself := isBinary64_ofNat hn
    exact Or.inr ⟨hsmall, n, hself, hself, fun _ => rfl, fun h => absurd hn h.not_gt⟩
  · obtain ⟨k, hk, hlow, hhigh⟩ := exists_binade hn
    obtain ⟨hmin, hmax⟩ := significand_bounds hlow hhigh
    rw [nearest_of_binade hlow hhigh]
    split
    next hinfinite => exact Or.inl ⟨(overflow_iff hlow hhigh).mp hinfinite, rfl⟩
    next hfinite =>
      have hlt := not_le.mp ((overflow_iff hlow hhigh).not.mp hfinite)
      refine Or.inr ⟨hlt, _, rfl, nearest_multiple hmin hmax (not_le.mp hfinite),
        fun h => absurd hn h.not_ge, fun _ => ?_⟩
      have hstep : 2 ^ 1 ≤ 2 ^ k := pow_le_pow_right₀ one_le_two hk
      rw [exactBound_eq]
      exact Nat.mul_le_mul hmin hstep

end Natural

section Text

variable {n m : ℕ}

/-- Whether the nearest binary64 number of a natural number is written with its digits: below
`2 ^ 53`, and below `10 ^ 21` where the shortest decimal of the nearest number states it. -/
def IsExact (n : ℕ) : Prop :=
  n < exactBound ∨ n < 10 ^ 21 ∧ ∃ q, nearest n = finite q ∧ (Decimal.shortest q).value = n

theorem text_ofNat_large (h : exactBound ≤ m) : (ofNat m).text.toList =
    Decimal.layout (Decimal.shortest m).trimmed.1 (Decimal.shortest m).trimmed.2 := by
  have hq : ¬ (m : Rat) < 0 := not_lt.mpr (Nat.cast_nonneg m)
  have hnum : ¬ ((m : Rat).den = 1 ∧ (m : Rat).num < exactBound) := by
    rw [Rat.num_natCast]
    omega
  rw [ofNat, text, String.toList_ofList, if_neg hq, magnitudeText, if_neg hnum]

theorem ofNat_inj : ofNat n = ofNat m ↔ n = m := by
  rw [ofNat, ofNat, Number.finite.injEq, Nat.cast_inj]

theorem text_nearest_iff (h : nearest n = ofNat m) :
    (ofNat m).text.toList = Nat.toDigits 10 n ↔ IsExact n := by
  rcases nearest_cases n with ⟨-, hinfinite⟩ | ⟨-, m', hm, hbinary, hsmall, hlarge⟩
  · cases hinfinite.symm.trans h
  obtain rfl := ofNat_inj.mp (hm.symm.trans h)
  rcases lt_or_ge n exactBound with hn | hn
  · obtain rfl := hsmall hn
    rw [text_ofNat hn, String.toList_ofList]
    exact iff_of_true rfl (Or.inl hn)
  · have hpos : (0 : Rat) < m' := by
      have hge := hlarge hn
      rw [exactBound_eq] at hge
      exact_mod_cast (show 0 < m' by omega)
    have hnearest : nearestPositive m' = finite m' := (nearest_of_pos hpos).symm.trans hbinary
    rw [text_ofNat_large (hlarge hn),
      Decimal.layout_trimmed_eq_iff (Decimal.digits_shortest_ne_zero hpos hnearest), IsExact,
      or_iff_right hn.not_gt, h, and_comm]
    simp [ofNat]

end Text

section Numerals

theorem pow_le_of_lt_digitCount {n k : ℕ} (hk : 0 < k) (h : k < Decimal.digitCount n) :
    10 ^ k ≤ n :=
  not_lt.mp ((Nat.length_toDigits_le_iff (by decide) hk).not.mp h.not_ge)

theorem toNumber_natural (n : ℕ) : (Decimal.mk false n 0).toNumber = nearest n := by
  have hvalue : (Decimal.mk false n 0).value = n := by
    rw [Decimal.value, zpow_zero, mul_one]
  have hmagnitude : (Decimal.mk false n 0).magnitude = Decimal.digitCount n := add_zero _
  rw [Decimal.toNumber_eq, hvalue, hmagnitude]
  split
  next hsmall =>
    obtain rfl : n = 0 := hsmall.resolve_right (by omega)
    rfl
  next =>
    split
    next hlarge =>
      have htop : 2 ^ 1024 ≤ 10 ^ 310 := by decide +kernel
      have hpower : 10 ^ 310 ≤ n := pow_le_of_lt_digitCount (by decide) (by omega)
      rcases nearest_cases n with ⟨-, hinfinite⟩ | ⟨hlt, -⟩
      · exact hinfinite.symm
      · exact absurd (overflow_le.trans (htop.trans hpower)) hlt.not_ge
    next => rfl

/-- Digits are read as the binary64 number nearest to what they state. -/
theorem ofText_numeral {d : String} (h : IsNumeral d) : ofText d = nearest (numeralValue d) := by
  have hwritten : ∀ c ∈ d.toList, Numeral.IsWritten c := fun c hc => Or.inl (h.isDigit c hc)
  have hread := Numeral.decimal?_whole false h.isDigit h.nonempty Decimal.stops_nil nofun
  rw [List.append_nil] at hread
  rw [ofText, trimBlanks_of_isWritten hwritten, read_of_isWritten hwritten hread]
  exact toNumber_natural _

end Numerals

end AgentPrompts.Number
