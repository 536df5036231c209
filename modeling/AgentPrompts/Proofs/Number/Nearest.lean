import Mathlib.Algebra.Order.Field.Power
import Mathlib.Data.Rat.Cast.Order
import Mathlib.Data.Rat.Floor
import Mathlib.Tactic.FieldSimp
import Mathlib.Tactic.Linarith
import Mathlib.Tactic.NormNum
import AgentPrompts.Number.Decimal

/-! # Nearest binary64 numbers

A number is a binary64 number when rounding gives it back. Rounding gives it for every
number close by as well, and every natural number up to `2 ^ 53` is one.
-/

namespace AgentPrompts.Number

theorem exponent_spec (base : ℕ) (hbase : 1 < base) {q : Rat} (hq : 0 < q) {a b : ℤ}
    (ha : (base : Rat) ^ a ≤ q.num.natAbs) (ha' : (q.num.natAbs : Rat) < base ^ (a + 1))
    (hb : (base : Rat) ^ b ≤ q.den) (hb' : (q.den : Rat) < base ^ (b + 1)) {e : ℤ}
    (he : e = if (base : Rat) ^ (a - b) ≤ q then a - b else a - b - 1) :
    (base : Rat) ^ e ≤ q ∧ q < base ^ (e + 1) := by
  have hbase₀ : (0 : Rat) < base := by exact_mod_cast Nat.zero_lt_of_lt hbase
  have hden : (0 : Rat) < q.den := by exact_mod_cast q.den_pos
  have hnum : (q.num.natAbs : Rat) = q * q.den := by
    have habs : ((q.num.natAbs : ℤ) : Rat) = q.num := by
      rw [Int.natAbs_of_nonneg (Rat.num_nonneg.mpr hq.le)]
    rw [Rat.mul_den_eq_num, ← habs, Int.cast_natCast]
  rw [hnum] at ha ha'
  have hlow : (base : Rat) ^ (a - b - 1) < q := by
    have hmul : (base : Rat) ^ (a - b - 1) * q.den < q * q.den := by
      calc (base : Rat) ^ (a - b - 1) * q.den
          < base ^ (a - b - 1) * base ^ (b + 1) :=
            mul_lt_mul_of_pos_left hb' (zpow_pos hbase₀ _)
        _ = base ^ a := by rw [← zpow_add₀ hbase₀.ne']; congr 1; ring
        _ ≤ q * q.den := ha
    exact lt_of_mul_lt_mul_right hmul hden.le
  have hhigh : q < base ^ (a - b + 1) := by
    have hmul : q * q.den < base ^ (a - b + 1) * q.den := by
      calc q * q.den < base ^ (a + 1) := ha'
        _ = base ^ (a - b + 1) * base ^ b := by rw [← zpow_add₀ hbase₀.ne']; congr 1; ring
        _ ≤ base ^ (a - b + 1) * q.den := mul_le_mul_of_nonneg_left hb (zpow_pos hbase₀ _).le
    exact lt_of_mul_lt_mul_right hmul hden.le
  subst he
  split
  next h => exact ⟨h, hhigh⟩
  next h => exact ⟨hlow.le, by rwa [sub_add_cancel, ← not_le]⟩

theorem exponent_unique (base : ℕ) (hbase : 1 < base) {q : Rat} {e f : ℤ}
    (he : (base : Rat) ^ e ≤ q) (he' : q < base ^ (e + 1)) (hf : (base : Rat) ^ f ≤ q)
    (hf' : q < base ^ (f + 1)) : e = f := by
  have hbase₁ : (1 : Rat) < base := by exact_mod_cast hbase
  have h₁ := (zpow_lt_zpow_iff_right₀ hbase₁).mp (he.trans_lt hf')
  have h₂ := (zpow_lt_zpow_iff_right₀ hbase₁).mp (hf.trans_lt he')
  omega

theorem zpow_log2_le {n : ℕ} (hn : n ≠ 0) :
    ((2 : ℕ) : Rat) ^ (n.log2 : ℤ) ≤ n ∧ (n : Rat) < ((2 : ℕ) : Rat) ^ ((n.log2 : ℤ) + 1) := by
  constructor
  · rw [zpow_natCast]
    exact_mod_cast Nat.log2_self_le hn
  · have h := Nat.lt_log2_self (n := n)
    rw [← Nat.cast_succ, zpow_natCast]
    exact_mod_cast h

theorem binaryExponent_spec {q : Rat} (hq : 0 < q) :
    (2 : Rat) ^ binaryExponent q ≤ q ∧ q < 2 ^ (binaryExponent q + 1) := by
  have hnum : q.num.natAbs ≠ 0 := by
    have := Rat.num_pos.mpr hq
    omega
  obtain ⟨ha, ha'⟩ := zpow_log2_le hnum
  obtain ⟨hb, hb'⟩ := zpow_log2_le q.den_nz
  exact exponent_spec 2 (by decide) hq ha ha' hb hb' rfl

theorem binaryExponent_eq {q : Rat} {e : ℤ} (h : (2 : Rat) ^ e ≤ q) (h' : q < 2 ^ (e + 1)) :
    binaryExponent q = e := by
  have hq : 0 < q := (zpow_pos (by norm_num) e).trans_le h
  obtain ⟨hlow, hhigh⟩ := binaryExponent_spec hq
  exact exponent_unique 2 (by decide) hlow hhigh h h'

theorem floor_eq_iff {q : Rat} {m : ℤ} : q.floor = m ↔ m ≤ q ∧ q < m + 1 := by
  change ⌊q⌋ = m ↔ _
  exact Int.floor_eq_iff

theorem roundEven_of_close {q : Rat} {m : ℤ} (h : |q - m| < 1 / 2) : roundEven q = m := by
  obtain ⟨hlow, hhigh⟩ := abs_lt.mp h
  rw [roundEven]
  rcases le_or_gt (m : Rat) q with hle | hlt
  · have hfloor : q.floor = m := floor_eq_iff.mpr ⟨hle, by linarith⟩
    simp only [hfloor, if_pos hhigh]
  · have hfloor : q.floor = m - 1 := by
      refine floor_eq_iff.mpr ⟨?_, ?_⟩ <;> push_cast <;> linarith
    simp only [hfloor]
    push_cast
    rw [if_neg (by linarith), if_pos (by linarith)]
    omega

def lastExponent (q : Rat) : ℤ := max (binaryExponent q - 52) (-1074)

theorem zpow_pos_two (e : ℤ) : (0 : Rat) < 2 ^ e := zpow_pos (by norm_num) e

theorem zpow_le_zpow_two {e f : ℤ} (h : e ≤ f) : (2 : Rat) ^ e ≤ 2 ^ f :=
  zpow_le_zpow_right₀ (by norm_num) h

theorem zpow_eq_mul_zpow {e u : ℤ} (h : u ≤ e) :
    (2 : Rat) ^ e = ((2 ^ (e - u).toNat : ℤ) : Rat) * 2 ^ u := by
  have he : e = ((e - u).toNat : ℤ) + u := by omega
  conv_lhs => rw [he, zpow_add₀ (by norm_num), zpow_natCast]
  push_cast
  rfl

section Close

variable {q d : Rat} {m : ℤ}

/-- Rounding at the last bit gives the multiple that is close. -/
theorem nearestPositive_of_multiple (hq : q = m * 2 ^ lastExponent d)
    (hclose : |d - q| < 2 ^ (lastExponent d - 1)) (hfinite : q < 2 ^ (1024 : ℤ)) :
    nearestPositive d = finite q := by
  have hunit := zpow_pos_two (lastExponent d)
  have hdiv : |d / 2 ^ lastExponent d - m| < 1 / 2 := by
    have he : d / 2 ^ lastExponent d - m = (d - q) / 2 ^ lastExponent d := by
      rw [hq]
      field_simp
    rw [zpow_sub_one₀ (by norm_num)] at hclose
    rw [he, abs_div, abs_of_pos hunit, div_lt_iff₀ hunit]
    linarith
  have hround := roundEven_of_close hdiv
  rw [lastExponent] at hround hq
  simp only [nearestPositive, hround, ← hq, if_neg (not_le.mpr hfinite)]

theorem multiple_of_nearestPositive (h : nearestPositive q = finite q) :
    ∃ m : ℤ, q = m * 2 ^ lastExponent q ∧ q < 2 ^ (1024 : ℤ) := by
  simp only [nearestPositive] at h
  split at h
  next => cases h
  next hfinite =>
    have hq := Number.finite.inj h
    rw [hq] at hfinite
    exact ⟨_, hq.symm, not_le.mp hfinite⟩

theorem lastExponent_le (hq : 0 < q) (hm : q = m * 2 ^ lastExponent q) :
    lastExponent q ≤ binaryExponent q := by
  have hunit := zpow_pos_two (lastExponent q)
  have hone : (1 : Rat) ≤ m := by
    have hpos : (0 : Rat) < m := pos_of_mul_pos_left (hm ▸ hq) hunit.le
    exact_mod_cast hpos
  have hle : (2 : Rat) ^ lastExponent q ≤ q := by
    conv_rhs => rw [hm]
    exact le_mul_of_one_le_left hunit.le hone
  have hlt := (zpow_lt_zpow_iff_right₀ (by norm_num)).mp (hle.trans_lt (binaryExponent_spec hq).2)
  omega

theorem nearestPositive_of_close_above (hq : 0 < q) (hm : q = m * 2 ^ lastExponent q)
    (hfinite : q < 2 ^ (1024 : ℤ)) (hd : |d - q| < 2 ^ (binaryExponent q - 53))
    (hle : 2 ^ binaryExponent q ≤ d) : nearestPositive d = finite q := by
  have hspec := binaryExponent_spec hq
  have hunit := zpow_pos_two (lastExponent q)
  have hhalf : (2 : Rat) ^ (binaryExponent q - 53) ≤ 2 ^ (lastExponent q - 1) :=
    zpow_le_zpow_two (by rw [lastExponent]; omega)
  have htop := zpow_eq_mul_zpow (e := binaryExponent q + 1) (u := lastExponent q)
    (by have := lastExponent_le hq hm; omega)
  have hnext : q + 2 ^ lastExponent q ≤ 2 ^ (binaryExponent q + 1) := by
    have hlt : m < 2 ^ (binaryExponent q + 1 - lastExponent q).toNat := by
      have hmul := hspec.2
      rw [htop] at hmul
      conv_lhs at hmul => rw [hm]
      exact_mod_cast lt_of_mul_lt_mul_right hmul hunit.le
    have hone : ((m + 1 : ℤ) : Rat) ≤ (2 ^ (binaryExponent q + 1 - lastExponent q).toNat : ℤ) := by
      exact_mod_cast hlt
    calc q + 2 ^ lastExponent q = ((m + 1 : ℤ) : Rat) * 2 ^ lastExponent q := by
          rw [Int.cast_add, Int.cast_one, add_mul, one_mul, ← hm]
      _ ≤ _ := mul_le_mul_of_nonneg_right hone hunit.le
      _ = 2 ^ (binaryExponent q + 1) := htop.symm
  have hlt : d < 2 ^ (binaryExponent q + 1) := by
    have := (abs_lt.mp hd).2
    have := zpow_le_zpow_two (show lastExponent q - 1 ≤ lastExponent q by omega)
    linarith
  have hlast : lastExponent d = lastExponent q := by
    rw [lastExponent, binaryExponent_eq hle hlt, ← lastExponent]
  rw [← hlast] at hm hhalf
  exact nearestPositive_of_multiple hm (hd.trans_le hhalf) hfinite

/-- Only a power of two has close numbers in the binade below, where the last bit may be half
as much. -/
theorem nearestPositive_of_close_below (hq : 0 < q) (hm : q = m * 2 ^ lastExponent q)
    (hfinite : q < 2 ^ (1024 : ℤ)) (hd : |d - q| < 2 ^ (binaryExponent q - 53))
    (hd' : |d - q| < q / 2 ^ 54) (hlt : d < 2 ^ binaryExponent q) :
    nearestPositive d = finite q := by
  have hspec := binaryExponent_spec hq
  have hunit := zpow_pos_two (lastExponent q)
  have hlow := (abs_lt.mp hd).1
  have hpower : q = 2 ^ binaryExponent q := by
    have hbottom := zpow_eq_mul_zpow (lastExponent_le hq hm)
    have hnear : q < 2 ^ binaryExponent q + 2 ^ lastExponent q := by
      have := zpow_le_zpow_two (show binaryExponent q - 53 ≤ lastExponent q by
        rw [lastExponent]; omega)
      linarith
    have hge : 2 ^ (binaryExponent q - lastExponent q).toNat ≤ m := by
      have hmul := hspec.1
      conv_rhs at hmul => rw [hm]
      rw [hbottom] at hmul
      exact_mod_cast le_of_mul_le_mul_right hmul hunit
    have hle : m < 2 ^ (binaryExponent q - lastExponent q).toNat + 1 := by
      rw [hbottom] at hnear
      conv_lhs at hnear => rw [hm]
      rw [← add_one_mul] at hnear
      exact_mod_cast lt_of_mul_lt_mul_right hnear hunit.le
    have hm' : m = 2 ^ (binaryExponent q - lastExponent q).toNat := by omega
    conv_lhs => rw [hm, hm']
    exact hbottom.symm
  have hbelow : (2 : Rat) ^ (binaryExponent q - 1) ≤ d := by
    have hhalf : (2 : Rat) ^ binaryExponent q = 2 ^ (binaryExponent q - 1) * 2 := by
      rw [← zpow_add_one₀ (by norm_num), sub_add_cancel]
    have hsmall := zpow_le_zpow_two (show binaryExponent q - 53 ≤ binaryExponent q - 1 by omega)
    linarith
  have hlast : lastExponent d = max (binaryExponent q - 53) (-1074) := by
    rw [lastExponent, binaryExponent_eq hbelow (by rwa [sub_add_cancel]), sub_sub]
    rfl
  have hunder : lastExponent d ≤ binaryExponent q := by
    have := lastExponent_le hq hm
    rw [lastExponent] at this
    omega
  refine nearestPositive_of_multiple (hpower.trans (zpow_eq_mul_zpow hunder)) ?_ hfinite
  refine hd'.trans_le ?_
  rw [hpower, ← zpow_natCast, ← zpow_sub₀ (by norm_num)]
  exact zpow_le_zpow_two (by omega)

/-- The numbers close to a binary64 number are rounded to it. -/
theorem nearestPositive_of_close (hq : 0 < q) (h : nearestPositive q = finite q)
    (hd : |d - q| < q / 2 ^ 54) : nearestPositive d = finite q := by
  obtain ⟨m, hm, hfinite⟩ := multiple_of_nearestPositive h
  have hclose : |d - q| < 2 ^ (binaryExponent q - 53) := by
    have htop : q / 2 ^ 54 < 2 ^ (binaryExponent q + 1) / 2 ^ 54 :=
      div_lt_div_of_pos_right (binaryExponent_spec hq).2 (by positivity)
    rw [← zpow_natCast, ← zpow_sub₀ (by norm_num)] at htop
    exact (hd.trans htop).trans_le (zpow_le_zpow_two (by omega))
  rcases le_or_gt (2 ^ binaryExponent q) d with hle | hlt
  · exact nearestPositive_of_close_above hq hm hfinite hclose hle
  · exact nearestPositive_of_close_below hq hm hfinite hclose hd hlt

end Close

theorem nearest_of_pos {q : Rat} (hq : 0 < q) : nearest q = nearestPositive q := by
  rw [nearest, if_neg hq.ne', if_neg hq.le.not_gt]

theorem nearest_neg {q : Rat} (hq : 0 < q) : nearest (-q) = (nearest q).neg := by
  rw [nearest_of_pos hq, nearest, if_neg (neg_ne_zero.mpr hq.ne'), if_pos (neg_lt_zero.mpr hq),
    neg_neg]

theorem neg_eq_finite_iff {x : Number} {q : Rat} : x.neg = finite q ↔ x = finite (-q) := by
  cases x <;> simp [neg, neg_eq_iff_eq_neg]

/-- A number that rounding gives back. -/
def IsBinary64 : Number → Prop
  | finite q => nearest q = finite q
  | _ => True

theorem isBinary64_ofNat {n : ℕ} (hn : n < exactBound) : (ofNat n).IsBinary64 := by
  rcases Nat.eq_zero_or_pos n with rfl | hpos
  · rfl
  have hq : (0 : Rat) < n := by exact_mod_cast hpos
  have hlt : (n : Rat) < 2 ^ (53 : ℤ) := by
    have : (n : Rat) < exactBound := by exact_mod_cast hn
    exact this.trans_eq (by norm_num [exactBound])
  have hexp : binaryExponent n ≤ 52 := by
    have h := (binaryExponent_spec hq).1.trans_lt hlt
    have := (zpow_lt_zpow_iff_right₀ (by norm_num)).mp h
    omega
  have hlast : lastExponent n ≤ 0 := by rw [lastExponent]; omega
  have hm : (n : Rat) = ((n * 2 ^ (0 - lastExponent n).toNat : ℤ) : Rat) * 2 ^ lastExponent n := by
    rw [Int.cast_mul, mul_assoc, ← zpow_eq_mul_zpow hlast, zpow_zero, mul_one, Int.cast_natCast]
  have hnear : nearestPositive n = finite n := by
    refine nearestPositive_of_multiple hm ?_ (hlt.trans_le (zpow_le_zpow_two (by norm_num)))
    rw [sub_self, abs_zero]
    exact zpow_pos_two _
  exact (nearest_of_pos hq).trans hnear

end AgentPrompts.Number
