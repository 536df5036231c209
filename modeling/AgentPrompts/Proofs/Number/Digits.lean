import AgentPrompts.Proofs.Number.Reading

/-! # Digits without zeros in front

The digits of a natural number are the only ones that state it and have no superfluous zero
in front. Of the layouts of a number only the one without a point and an exponent consists of
digits, so it is decided which natural number a layout shows.
-/

namespace AgentPrompts

structure IsNumeral (d : String) : Prop where
  nonempty : d.toList ≠ []
  isDigit : ∀ c ∈ d.toList, c.isDigit

theorem isNumeral_iff {d : String} : IsNumeral d ↔ d.toList ≠ [] ∧ d.toList.all Char.isDigit := by
  rw [List.all_eq_true]
  exact ⟨fun h => ⟨h.nonempty, h.isDigit⟩, fun h => ⟨h.1, h.2⟩⟩

instance (d : String) : Decidable (IsNumeral d) := decidable_of_iff _ isNumeral_iff.symm

def numeralValue (d : String) : Nat := Nat.ofDigitChars 10 d.toList 0

def plainDigits (d : String) : List Char :=
  let significant := d.toList.dropWhile (· = '0')
  if significant = [] then ['0'] else significant

section Digits

variable {cs : List Char} {n : ℕ}

theorem toDigits_digit {c : Char} (hc : c.isDigit) :
    Nat.toDigits 10 (c.toNat - '0'.toNat) = [c] := by
  have hlt := (Numeral.digitValue?_of_isDigit hc).2
  have hlow := (Char.isDigit_iff_toNat.mp hc).1
  rw [Nat.toDigits_of_lt_base hlt, List.cons.injEq, ← Char.toNat_inj,
    Nat.toNat_digitChar_of_lt_ten hlt]
  change 48 + (c.toNat - 48) = c.toNat ∧ _
  exact ⟨Nat.add_sub_cancel' hlow, rfl⟩

theorem toDigits_append (hn : 0 < n) (hcs : ∀ c ∈ cs, c.isDigit) :
    Nat.toDigits 10 n ++ cs = Nat.toDigits 10 (Nat.ofDigitChars 10 cs n) := by
  induction cs generalizing n with
  | nil => rw [List.append_nil, Nat.ofDigitChars_nil]
  | cons c cs ih =>
    obtain ⟨hc, hcs⟩ := List.forall_mem_cons.mp hcs
    have hlast := Nat.toDigits_append_toDigits (by decide) hn (Numeral.digitValue?_of_isDigit hc).2
    rw [toDigits_digit hc] at hlast
    rw [Nat.ofDigitChars_cons, ← ih (by omega) hcs, ← hlast, List.append_assoc,
      List.singleton_append]

theorem digit_pos {c : Char} (hc : c.isDigit) (hne : c ≠ '0') : 0 < c.toNat - '0'.toNat := by
  obtain ⟨hlow, hhigh⟩ := Char.isDigit_iff_toNat.mp hc
  have hzero : '0'.toNat = 48 := rfl
  have : c.toNat ≠ '0'.toNat := fun h => hne (Char.toNat_inj.mp h)
  omega

/-- Digits without a zero in front are the digits of what they state. -/
theorem toDigits_ofDigitChars {c : Char} (hcs : ∀ d ∈ c :: cs, d.isDigit) (hne : c ≠ '0') :
    Nat.toDigits 10 (Nat.ofDigitChars 10 (c :: cs) 0) = c :: cs := by
  obtain ⟨hc, hcs⟩ := List.forall_mem_cons.mp hcs
  rw [Nat.ofDigitChars_cons, Nat.mul_zero, Nat.zero_add, ← toDigits_append (digit_pos hc hne) hcs,
    toDigits_digit hc, List.singleton_append]

theorem ofDigitChars_dropWhile (cs : List Char) :
    Nat.ofDigitChars 10 (cs.dropWhile (· = '0')) 0 = Nat.ofDigitChars 10 cs 0 := by
  induction cs with
  | nil => rfl
  | cons c cs ih =>
    by_cases hc : c = '0'
    · rw [List.dropWhile_cons_of_pos (by simpa using hc), ih, hc, Nat.ofDigitChars_cons,
        Nat.mul_zero, Nat.zero_add, Nat.sub_self]
    · rw [List.dropWhile_cons_of_neg (by simpa using hc)]

theorem dropWhile_cases (hcs : ∀ c ∈ cs, c.isDigit) :
    cs.dropWhile (· = '0') = [] ∧ Nat.ofDigitChars 10 cs 0 = 0 ∨
    ∃ c rest, cs.dropWhile (· = '0') = c :: rest ∧ c ≠ '0' ∧
      Nat.toDigits 10 (Nat.ofDigitChars 10 cs 0) = c :: rest := by
  rw [← ofDigitChars_dropWhile]
  have hhead := List.head?_dropWhile_not (· = '0') cs
  have hdigits : ∀ c ∈ cs.dropWhile (· = '0'), c.isDigit := fun c hc =>
    hcs c ((List.dropWhile_suffix _).subset hc)
  cases hdrop : cs.dropWhile (· = '0') with
  | nil => exact Or.inl ⟨rfl, rfl⟩
  | cons c rest =>
    rw [hdrop] at hhead hdigits
    have hne : c ≠ '0' := by simpa using hhead
    exact Or.inr ⟨c, rest, rfl, hne, toDigits_ofDigitChars hdigits hne⟩

theorem plainDigits_eq {d : String} (h : IsNumeral d) :
    plainDigits d = Nat.toDigits 10 (numeralValue d) := by
  rw [plainDigits, numeralValue]
  rcases dropWhile_cases h.isDigit with ⟨hdrop, hzero⟩ | ⟨c, rest, hdrop, -, hdigits⟩
  · rw [hdrop, hzero]
    rfl
  · rw [hdrop, hdigits]
    exact if_neg (List.cons_ne_nil c rest)

theorem exists_toDigits_cons (hn : n ≠ 0) : ∃ c rest, Nat.toDigits 10 n = c :: rest ∧ c ≠ '0' := by
  have hvalue : Nat.ofDigitChars 10 (Nat.toDigits 10 n) 0 = n := Nat.ofDigitChars_ten_toDigits
  have hdigits : ∀ c ∈ Nat.toDigits 10 n, c.isDigit := fun c => Numeral.isDigit_toDigits
  rcases dropWhile_cases hdigits with ⟨-, hzero⟩ | ⟨c, rest, -, hne, hcons⟩
  · exact absurd (hvalue.symm.trans hzero) hn
  · rw [hvalue] at hcons
    exact ⟨c, rest, hcons, hne⟩

end Digits

namespace Decimal

section Layout

variable {cs : List Char} {e : ℤ} {n : ℕ}

theorem not_dvd_ofDigitChars {c : Char} (hc : c.isDigit) (hne : c ≠ '0') (cs : List Char) :
    ¬ 10 ∣ Nat.ofDigitChars 10 (cs ++ [c]) 0 := by
  have hpos := digit_pos hc hne
  have hlt := (Numeral.digitValue?_of_isDigit hc).2
  rw [Nat.ofDigitChars_append, Nat.ofDigitChars_cons, Nat.ofDigitChars_nil]
  omega

theorem digitsValue_natCast (cs : List Char) (k : ℕ) : digitsValue cs k =
    (Nat.ofDigitChars 10 (cs ++ List.replicate k '0') 0 : ℕ) := by
  rw [digitsValue, Nat.ofDigitChars_append, Nat.ofDigitChars_replicate_zero, zpow_natCast]
  push_cast
  exact mul_comm _ _

theorem nonneg_of_digitsValue {c : Char} (hc : c.isDigit) (hne : c ≠ '0')
    (h : digitsValue (cs ++ [c]) e = n) : 0 ≤ e := by
  by_contra hneg
  obtain ⟨k, hk⟩ := Int.exists_eq_neg_ofNat (not_le.mp hneg).le
  have hscaled : Nat.ofDigitChars 10 (cs ++ [c]) 0 = n * 10 ^ k := by
    rw [digitsValue, hk, zpow_neg, zpow_natCast, ← div_eq_mul_inv,
      div_eq_iff (by positivity)] at h
    exact_mod_cast h
  refine not_dvd_ofDigitChars hc hne cs (hscaled ▸ Dvd.dvd.mul_left (dvd_pow_self 10 ?_) n)
  omega

theorem exists_layout_eq (hne : cs ≠ []) (h : ∀ c ∈ layout cs e, c.isDigit) : ∃ k : ℕ, e = k ∧
    cs.length + k ≤ 21 ∧ layout cs e = cs ++ List.replicate k '0' := by
  have hpoint : '.' ∉ layout cs e := fun hmem => absurd (h _ hmem) (by decide)
  have hexponent : 'e' ∉ layout cs e := fun hmem => absurd (h _ hmem) (by decide)
  simp only [layout] at hpoint hexponent ⊢
  split
  next hplain => exact ⟨e.toNat, by omega, by omega, rfl⟩
  next hplain =>
    rw [if_neg hplain] at hpoint hexponent
    split at hpoint
    next => simp at hpoint
    next hmiddle =>
      split at hpoint
      next => simp at hpoint
      next hsmall =>
        rw [if_neg hmiddle, if_neg hsmall] at hexponent
        obtain ⟨c, others, rfl⟩ := List.exists_cons_of_ne_nil hne
        cases others with
        | nil => simp at hexponent
        | cons d ds => simp at hpoint

theorem layout_natCast {k : ℕ} (h : cs.length + k ≤ 21) :
    layout cs k = cs ++ List.replicate k '0' :=
  if_pos ⟨Int.natCast_nonneg k, by exact_mod_cast h⟩

end Layout

section Trimmed

variable {d : Decimal} {n : ℕ}

theorem trimmed_begins (h : d.digits ≠ 0) : ∃ c rest, (trimmed d).1 = c :: rest ∧ c ≠ '0' := by
  obtain ⟨zeros, -, hdigits⟩ := toDigits_eq_trimmed d
  obtain ⟨c, rest, hcons, hne⟩ := exists_toDigits_cons h
  obtain ⟨first, others, htrimmed⟩ := List.exists_cons_of_ne_nil (trimmed_ne_nil h)
  rw [hcons, htrimmed] at hdigits
  obtain ⟨rfl, -⟩ := List.cons.inj hdigits
  exact ⟨c, others, htrimmed, hne⟩

theorem trimmed_ends (h : d.digits ≠ 0) : ∃ cs c, (trimmed d).1 = cs ++ [c] ∧ c ≠ '0' := by
  have hne := trimmed_ne_nil h
  rw [trimmed_fst] at hne ⊢
  obtain ⟨c, rest, hdrop⟩ := List.exists_cons_of_ne_nil (mt List.reverse_eq_nil_iff.mpr hne)
  have hhead := List.head?_dropWhile_not (· = '0') (Nat.toDigits 10 d.digits).reverse
  rw [hdrop] at hhead
  exact ⟨rest.reverse, c, by rw [hdrop, List.reverse_cons], by simpa using hhead⟩

/-- The layout of a decimal shows a natural number below `10 ^ 21` if it is the value, and no
other number. -/
theorem layout_trimmed_eq_iff (h : d.digits ≠ 0) :
    layout (trimmed d).1 (trimmed d).2 = Nat.toDigits 10 n ↔ d.value = n ∧ n < 10 ^ 21 := by
  have hlength : (Nat.toDigits 10 n).length ≤ 21 ↔ n < 10 ^ 21 :=
    Nat.length_toDigits_le_iff (by decide) (by decide)
  have hdigits : ∀ c ∈ (trimmed d).1, c.isDigit := isDigit_trimmed
  rw [← digitsValue_trimmed d, ← hlength]
  constructor
  · intro hlayout
    obtain ⟨k, he, hle, hplain⟩ := exists_layout_eq (trimmed_ne_nil h)
      fun c hc => Numeral.isDigit_toDigits (hlayout ▸ hc)
    rw [hlayout] at hplain
    rw [he, digitsValue_natCast, ← hplain, Nat.ofDigitChars_ten_toDigits]
    refine ⟨rfl, ?_⟩
    rwa [hplain, List.length_append, List.length_replicate]
  · rintro ⟨hn, hle⟩
    obtain ⟨c, rest, hbegins, hne⟩ := trimmed_begins h
    obtain ⟨cs, last, hends, hlast⟩ := trimmed_ends h
    have hnonneg : 0 ≤ (trimmed d).2 :=
      nonneg_of_digitsValue (hdigits last (by simp [hends])) hlast (hends ▸ hn)
    obtain ⟨k, he⟩ := Int.eq_ofNat_of_zero_le hnonneg
    have hpadded : Nat.toDigits 10 n = (trimmed d).1 ++ List.replicate k '0' := by
      rw [he, digitsValue_natCast, Nat.cast_inj] at hn
      have hpaddedDigits : ∀ x ∈ (trimmed d).1 ++ List.replicate k '0', x.isDigit := fun x hx =>
        isDigit_replicate_append k hdigits x
          (List.mem_append.mpr (List.mem_append.mp hx).symm)
      rw [hbegins] at hpaddedDigits
      rw [← hn, hbegins]
      exact toDigits_ofDigitChars hpaddedDigits hne
    rw [hpadded, List.length_append, List.length_replicate] at hle
    rw [he, layout_natCast hle, hpadded]

end Trimmed

end Decimal

end AgentPrompts
