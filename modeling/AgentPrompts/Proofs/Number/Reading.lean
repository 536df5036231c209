import Mathlib.Data.List.TakeWhile
import AgentPrompts.Number.Numeral
import AgentPrompts.Proofs.Number.Shortest

/-! # Reading numbers back

The text of a binary64 number reads as the number itself, in each of its layouts.
-/

namespace AgentPrompts.Numeral

def Stops (cs : List Char) : Prop := ∀ c ∈ cs.head?, c.isDigit = false

section Digits

variable {cs ds rest : List Char}

theorem digitValue?_of_isDigit {c : Char} (h : c.isDigit) :
    digitValue? c = some (c.toNat - '0'.toNat) ∧ c.toNat - '0'.toNat < 10 := by
  obtain ⟨hlow, hhigh⟩ := Char.isDigit_iff_toNat.mp h
  refine ⟨if_pos (And.intro ?_ ?_), ?_⟩
  · exact UInt32.le_iff_toNat_le.mpr hlow
  · exact UInt32.le_iff_toNat_le.mpr hhigh
  · have hnine : '9'.toNat = '0'.toNat + 9 := rfl
    omega

theorem natural?_of_isDigit (hds : ∀ c ∈ ds, c.isDigit) (hne : ds ≠ []) :
    natural? 10 ds = some (Nat.ofDigitChars 10 ds 0) := by
  rw [natural?, if_neg (by rwa [List.isEmpty_iff])]
  generalize 0 = n
  clear hne
  induction ds generalizing n with
  | nil => rfl
  | cons c ds ih =>
    obtain ⟨hvalue, hlt⟩ := digitValue?_of_isDigit (hds c List.mem_cons_self)
    rw [List.foldlM_cons, hvalue, Nat.ofDigitChars_cons]
    change (if c.toNat - '0'.toNat < 10 then _ else none).bind _ = _
    rw [if_pos hlt]
    exact ih (fun c hc => hds c (List.mem_cons_of_mem _ hc)) _

theorem isDigit_toDigits {n : ℕ} {c : Char} (hc : c ∈ Nat.toDigits 10 n) : c.isDigit :=
  Nat.isDigit_of_mem_toDigits (by decide) (by decide) hc

theorem natural?_toDigits (n : ℕ) : natural? 10 (Nat.toDigits 10 n) = some n := by
  rw [natural?_of_isDigit (fun _ => isDigit_toDigits) Nat.toDigits_ne_nil,
    Nat.ofDigitChars_ten_toDigits]

theorem exponent?_signed (e : ℤ) : exponent? ('e' :: Decimal.signed e) = some e := by
  rw [Decimal.signed]
  split
  next h =>
    simp only [exponent?, true_or, if_true, natural?_toDigits]
    refine congrArg some ?_
    change -(e.natAbs : ℤ) = e
    omega
  next h =>
    simp only [exponent?, true_or, if_true, natural?_toDigits, Option.map_some, Option.some_inj]
    exact Int.natAbs_of_nonneg (not_lt.mp h)

theorem span_digits (hcs : ∀ c ∈ cs, c.isDigit) (hrest : Stops rest) :
    (cs ++ rest).span Char.isDigit = (cs, rest) := by
  rw [List.span_eq_takeWhile_dropWhile, List.takeWhile_append_of_pos hcs,
    List.dropWhile_append_of_pos hcs]
  cases rest with
  | nil => rw [List.takeWhile_nil, List.append_nil, List.dropWhile_nil]
  | cons c rest =>
    have hc : ¬ c.isDigit := by rw [hrest c rfl]; exact Bool.false_ne_true
    rw [List.takeWhile_cons_of_neg hc, List.append_nil, List.dropWhile_cons_of_neg hc]

theorem decimal?_whole (negative : Bool) (hcs : ∀ c ∈ cs, c.isDigit) (hne : cs ≠ [])
    (hrest : Stops rest) (hpoint : rest.head? ≠ some '.') : decimal? negative (cs ++ rest) =
      (exponent? rest).map fun e => ⟨negative, Nat.ofDigitChars 10 cs 0, e⟩ := by
  have hempty : cs.isEmpty = false := List.isEmpty_eq_false_iff.mpr hne
  rw [decimal?, span_digits hcs hrest]
  simp only
  split
  next ds hds => exact absurd rfl hpoint
  next =>
    simp only [hempty, List.append_nil]
    cases exponent? rest with
    | none => rfl
    | some e =>
      change some (Decimal.mk _ _ (e - 0)) = _
      rw [sub_zero]
      rfl

theorem decimal?_point (negative : Bool) (hcs : ∀ c ∈ cs, c.isDigit) (hne : cs ≠ [])
    (hds : ∀ c ∈ ds, c.isDigit) (hrest : Stops rest) :
    decimal? negative (cs ++ '.' :: (ds ++ rest)) = (exponent? rest).map fun e =>
      ⟨negative, Nat.ofDigitChars 10 (cs ++ ds) 0, e - ds.length⟩ := by
  have hempty : cs.isEmpty = false := List.isEmpty_eq_false_iff.mpr hne
  have hstops : Stops ('.' :: (ds ++ rest)) := by
    rintro c ⟨⟩
    rfl
  rw [decimal?, span_digits hcs hstops]
  simp only [span_digits hds hrest, hempty]
  cases exponent? rest with
  | none => rfl
  | some e => rfl

end Digits

end AgentPrompts.Numeral

namespace AgentPrompts.Decimal

open Numeral

/-- Whether a text reads as a decimal with a sign and a value. -/
def ReadsAs (text : List Char) (negative : Bool) (q : Rat) : Prop :=
  ∃ d, decimal? negative text = some d ∧ d.negative = negative ∧ d.value = q

section Layout

variable {cs : List Char} (negative : Bool) (e : ℤ)

def digitsValue (cs : List Char) (e : ℤ) : Rat := (Nat.ofDigitChars 10 cs 0 : ℕ) * (10 : Rat) ^ e

theorem stops_nil : Stops [] := fun c hc => by cases hc

theorem stops_exponent : Stops ('e' :: signed e) := by
  rintro c ⟨⟩
  rfl

theorem isDigit_replicate_append (k : ℕ) (hcs : ∀ c ∈ cs, c.isDigit) :
    ∀ c ∈ List.replicate k '0' ++ cs, c.isDigit := by
  intro c hc
  rcases List.mem_append.mp hc with hc | hc
  · rw [List.eq_of_mem_replicate hc]
    rfl
  · exact hcs c hc

theorem readsAs_padded (hcs : ∀ c ∈ cs, c.isDigit) (hne : cs ≠ []) (k : ℕ) :
    ReadsAs (cs ++ List.replicate k '0') negative (digitsValue cs k) := by
  have hdigits : ∀ c ∈ cs ++ List.replicate k '0', c.isDigit := fun c hc =>
    isDigit_replicate_append k hcs c
      (List.mem_append.mpr (List.mem_append.mp hc).symm)
  have hread := decimal?_whole negative hdigits (List.append_ne_nil_of_left_ne_nil hne _)
    stops_nil (by simp)
  rw [List.append_nil] at hread
  refine ⟨_, hread, rfl, ?_⟩
  rw [value, digitsValue, Nat.ofDigitChars_append, Nat.ofDigitChars_replicate_zero, zpow_zero,
    mul_one, zpow_natCast]
  push_cast
  exact mul_comm _ _

theorem readsAs_pointed {ds : List Char} (hcs : ∀ c ∈ cs, c.isDigit) (hne : cs ≠ [])
    (hds : ∀ c ∈ ds, c.isDigit) :
    ReadsAs (cs ++ '.' :: ds) negative (digitsValue (cs ++ ds) (-ds.length)) := by
  have hread := decimal?_point negative hcs hne hds stops_nil
  rw [List.append_nil] at hread
  refine ⟨_, hread, rfl, ?_⟩
  change digitsValue (cs ++ ds) (0 - ds.length) = _
  rw [zero_sub]

theorem readsAs_scientific {c : Char} (hc : c.isDigit) {ds : List Char}
    (hds : ∀ c ∈ ds, c.isDigit) : ReadsAs (c :: '.' :: (ds ++ 'e' :: signed e)) negative
      (digitsValue (c :: ds) (e - ds.length)) := by
  have hread := decimal?_point negative (List.forall_mem_singleton.mpr hc)
    (List.cons_ne_nil _ _) hds (stops_exponent e)
  rw [exponent?_signed] at hread
  exact ⟨_, hread, rfl, rfl⟩

theorem readsAs_scientific_digit {c : Char} (hc : c.isDigit) :
    ReadsAs (c :: 'e' :: signed e) negative (digitsValue [c] e) := by
  have hread := decimal?_whole negative (List.forall_mem_singleton.mpr hc)
    (List.cons_ne_nil _ _) (stops_exponent e) (by simp)
  rw [exponent?_signed] at hread
  exact ⟨_, hread, rfl, rfl⟩

theorem readsAs_layout (hcs : ∀ c ∈ cs, c.isDigit) (hne : cs ≠ []) :
    ReadsAs (layout cs e) negative (digitsValue cs e) := by
  have hlen : 0 < cs.length := List.length_pos_iff.mpr hne
  simp only [layout]
  split
  next h =>
    have hread := readsAs_padded negative hcs hne e.toNat
    rwa [Int.toNat_of_nonneg h.1] at hread
  split
  next h h' =>
    have htake : cs.take (cs.length + e).toNat ≠ [] := by
      rw [Ne, List.take_eq_nil_iff, not_or]
      exact ⟨by omega, hne⟩
    have hdrop : ∀ c ∈ cs.drop (cs.length + e).toNat, c.isDigit := fun c hc =>
      hcs c (List.mem_of_mem_drop hc)
    have hread := readsAs_pointed negative (fun c hc => hcs c (List.mem_of_mem_take hc)) htake
      hdrop
    have he : -((cs.length - (cs.length + e).toNat : ℕ) : ℤ) = e := by omega
    rwa [List.take_append_drop, List.length_drop, he] at hread
  split
  next h =>
    have hzero : ∀ c ∈ ['0'], c.isDigit := by simp
    have hread := readsAs_pointed negative hzero (List.cons_ne_nil _ _)
      (isDigit_replicate_append (-(cs.length + e)).toNat hcs)
    have he : -(((-(cs.length + e)).toNat + cs.length : ℕ) : ℤ) = e := by omega
    rw [List.length_append, List.length_replicate, he, digitsValue, Nat.ofDigitChars_append,
      Nat.ofDigitChars_append, Nat.ofDigitChars_replicate_zero] at hread
    exact hread
  match cs, hne with
  | [c], _ =>
    have hread := readsAs_scientific_digit negative (([c].length : ℤ) + e - 1)
      (hcs c List.mem_cons_self)
    have he : ([c].length : ℤ) + e - 1 = e := by
      rw [List.length_singleton, Nat.cast_one, add_sub_cancel_left]
    rw [he] at hread ⊢
    exact hread
  | c :: d :: ds, _ =>
    have hread := readsAs_scientific negative (((c :: d :: ds).length : ℤ) + e - 1)
      (hcs c List.mem_cons_self) (fun b hb => hcs b (List.mem_cons_of_mem _ hb))
    have he : ((c :: d :: ds).length : ℤ) + e - 1 - (d :: ds).length = e := by
      simp only [List.length_cons]
      omega
    rwa [he] at hread

end Layout

section Trimmed

variable {d : Decimal}

theorem trimmed_fst (d : Decimal) : (trimmed d).1 =
    ((Nat.toDigits 10 d.digits).reverse.dropWhile (· = '0')).reverse := by
  have hsplit := List.takeWhile_append_dropWhile (p := (· = '0'))
    (l := (Nat.toDigits 10 d.digits).reverse)
  have hdrop := congrArg
    (List.drop ((Nat.toDigits 10 d.digits).reverse.takeWhile (· = '0')).length) hsplit
  rw [List.drop_left] at hdrop
  exact congrArg List.reverse hdrop.symm

theorem toDigits_eq_trimmed (d : Decimal) : ∃ zeros : ℕ, (trimmed d).2 = d.exponent + zeros ∧
    Nat.toDigits 10 d.digits = (trimmed d).1 ++ List.replicate zeros '0' := by
  refine ⟨_, rfl, ?_⟩
  set cs := (Nat.toDigits 10 d.digits).reverse with hcs
  have hzeros : cs.takeWhile (· = '0') =
      List.replicate (cs.takeWhile (· = '0')).length '0' := by
    refine List.eq_replicate_iff.mpr ⟨rfl, fun c hc => ?_⟩
    have hzero := List.mem_takeWhile_imp hc
    exact of_decide_eq_true hzero
  rw [trimmed_fst, ← List.reverse_replicate, ← hzeros, ← List.reverse_append,
    List.takeWhile_append_dropWhile, hcs, List.reverse_reverse]

theorem digitsValue_trimmed (d : Decimal) :
    digitsValue (trimmed d).1 (trimmed d).2 = d.value := by
  obtain ⟨zeros, hexp, hdigits⟩ := toDigits_eq_trimmed d
  have hvalue := congrArg (Nat.ofDigitChars 10 · 0) hdigits
  simp only [Nat.ofDigitChars_ten_toDigits, Nat.ofDigitChars_append,
    Nat.ofDigitChars_replicate_zero] at hvalue
  rw [digitsValue, hexp, value, hvalue, zpow_add₀ (by norm_num), zpow_natCast]
  push_cast
  ring

theorem isDigit_trimmed : ∀ c ∈ (trimmed d).1, c.isDigit := by
  obtain ⟨zeros, -, hdigits⟩ := toDigits_eq_trimmed d
  intro c hc
  exact isDigit_toDigits (hdigits ▸ List.mem_append_left _ hc)

theorem trimmed_ne_nil (h : d.digits ≠ 0) : (trimmed d).1 ≠ [] := by
  intro hnil
  have hvalue := digitsValue_trimmed d
  rw [hnil, digitsValue, Nat.ofDigitChars_nil, Nat.cast_zero, zero_mul] at hvalue
  exact h (value_eq_zero_iff.mp hvalue.symm)

end Trimmed

theorem toNumber_negative (n : ℕ) (e : ℤ) :
    (Decimal.mk true n e).toNumber = (Decimal.mk false n e).toNumber.neg := by
  have hnonneg : 0 ≤ (Decimal.mk false n e).value :=
    mul_nonneg (Nat.cast_nonneg n) (zpow_pos_ten e).le
  rw [toNumber_eq, toNumber_eq]
  change (if n = 0 ∨ (Decimal.mk false n e).magnitude < -330 then _ else
    if 310 < (Decimal.mk false n e).magnitude then _ else
      Number.nearest (-(Decimal.mk false n e).value)) = _
  split
  next => rfl
  next hn =>
    split
    next => rfl
    next =>
      have hpos : 0 < (Decimal.mk false n e).value :=
        hnonneg.lt_of_ne' fun h => hn (Or.inl (value_eq_zero_iff.mp h))
      exact Number.nearest_neg hpos

/-- A decimal reads as the number of its value, with its sign. -/
theorem ReadsAs.exists_toNumber {text : List Char} {negative : Bool} {d : Decimal}
    (h : ReadsAs text negative d.value) (hd : d.negative = false) :
    ∃ d', decimal? negative text = some d' ∧
      d'.toNumber = if negative then d.toNumber.neg else d.toNumber := by
  obtain ⟨d', hread, rfl, hvalue⟩ := h
  refine ⟨d', hread, ?_⟩
  obtain ⟨negative, n, e⟩ := d'
  cases negative with
  | false => exact toNumber_congr hd.symm hvalue
  | true =>
    rw [toNumber_negative]
    exact congrArg Number.neg (toNumber_congr hd.symm hvalue)

end AgentPrompts.Decimal

namespace AgentPrompts

open Numeral Decimal

def Numeral.IsWritten (c : Char) : Prop := c.isDigit ∨ c ∈ ['.', 'e', '+', '-']

instance : DecidablePred IsWritten := fun c =>
  inferInstanceAs (Decidable (c.isDigit ∨ c ∈ ['.', 'e', '+', '-']))

theorem Numeral.IsWritten.not_isBlank {c : Char} (h : IsWritten c) : isBlank c = false := by
  rcases h with h | h
  · obtain ⟨hlow, hhigh⟩ := Char.isDigit_iff_toNat.mp h
    have hdigits : ∀ n < 58, 48 ≤ n → isBlank (Char.ofNat n) = false := by decide
    rw [← Char.ofNat_toNat c]
    exact hdigits _ (Nat.lt_succ_of_le hhigh) hlow
  · simp only [List.mem_cons, List.not_mem_nil, or_false] at h
    rcases h with rfl | rfl | rfl | rfl <;> rfl

theorem isWritten_signed (e : ℤ) : ∀ c ∈ signed e, IsWritten c := by
  rw [signed, List.forall_mem_cons]
  constructor
  · split
    next => exact Or.inr (by decide)
    next => exact Or.inr (by decide)
  · exact fun c hc => Or.inl (isDigit_toDigits hc)

theorem isWritten_layout {cs : List Char} (e : ℤ) (hcs : ∀ c ∈ cs, c.isDigit) :
    ∀ c ∈ layout cs e, IsWritten c := by
  have hdigits : ∀ c ∈ cs, IsWritten c := fun c hc => Or.inl (hcs c hc)
  have hzeros (k : ℕ) : ∀ c ∈ List.replicate k '0', IsWritten c := fun c hc =>
    Or.inl (List.eq_of_mem_replicate hc ▸ rfl)
  have hpoint : IsWritten '.' := Or.inr (by decide)
  have he : IsWritten 'e' := Or.inr (by decide)
  simp only [layout]
  split
  next => exact List.forall_mem_append.mpr ⟨hdigits, hzeros _⟩
  split
  next =>
    refine List.forall_mem_append.mpr ⟨fun c hc => hdigits c (List.mem_of_mem_take hc), ?_⟩
    exact List.forall_mem_cons.mpr ⟨hpoint, fun c hc => hdigits c (List.mem_of_mem_drop hc)⟩
  split
  next =>
    refine List.forall_mem_cons.mpr ⟨Or.inl rfl, List.forall_mem_cons.mpr ⟨hpoint, ?_⟩⟩
    exact List.forall_mem_append.mpr ⟨hzeros _, hdigits⟩
  split
  next => exact fun c hc => by cases hc
  next d _ _ _ =>
    refine List.forall_mem_cons.mpr ⟨hdigits d List.mem_cons_self, ?_⟩
    exact List.forall_mem_cons.mpr ⟨he, isWritten_signed _⟩
  next d ds _ =>
    obtain ⟨hd, hds⟩ := List.forall_mem_cons.mp hdigits
    refine List.forall_mem_cons.mpr ⟨hd, List.forall_mem_cons.mpr ⟨hpoint, ?_⟩⟩
    refine List.forall_mem_append.mpr ⟨hds, ?_⟩
    exact List.forall_mem_cons.mpr ⟨he, isWritten_signed _⟩

theorem trimBlanks_of_isWritten {cs : List Char} (h : ∀ c ∈ cs, IsWritten c) :
    trimBlanks cs = cs := by
  have hdrop {ds : List Char} (hds : ∀ c ∈ ds, IsWritten c) : ds.dropWhile isBlank = ds := by
    cases ds with
    | nil => rfl
    | cons c ds =>
      refine List.dropWhile_cons_of_neg ?_
      rw [(hds c List.mem_cons_self).not_isBlank]
      exact Bool.false_ne_true
  rw [trimBlanks, hdrop h, hdrop fun c hc => h c (List.mem_reverse.mp hc), List.reverse_reverse]

theorem unsigned_of_isWritten {cs : List Char} (negative : Bool) (h : ∀ c ∈ cs, IsWritten c) :
    unsigned negative cs = ((decimal? negative cs).map Decimal.toNumber).getD .nan := by
  refine if_neg ?_
  rintro rfl
  exact absurd (h 'I' (by decide)) (by decide)

theorem read_of_isWritten {cs : List Char} {d : Decimal} (h : ∀ c ∈ cs, IsWritten c)
    (hd : decimal? false cs = some d) : Numeral.read cs = d.toNumber := by
  unfold Numeral.read
  split
  · cases hd
  · cases hd
  · cases hd
  · exact absurd (h 'x' (by simp)) (by decide)
  · exact absurd (h 'X' (by simp)) (by decide)
  · exact absurd (h 'o' (by simp)) (by decide)
  · exact absurd (h 'O' (by simp)) (by decide)
  · exact absurd (h 'b' (by simp)) (by decide)
  · exact absurd (h 'B' (by simp)) (by decide)
  · rw [unsigned_of_isWritten false h, hd]
    rfl

namespace Number

theorem isWritten_magnitudeText (q : Rat) : ∀ c ∈ magnitudeText q, IsWritten c := by
  rw [magnitudeText]
  split
  next => exact fun c hc => Or.inl (isDigit_toDigits hc)
  next => exact isWritten_layout _ isDigit_trimmed

theorem readsAs_toDigits (n : ℕ) (negative : Bool) :
    ReadsAs (Nat.toDigits 10 n) negative (Decimal.mk false n 0).value := by
  have h := readsAs_padded negative (fun c hc => isDigit_toDigits hc)
    (Nat.toDigits_ne_nil (n := n) (b := 10)) 0
  rwa [List.replicate_zero, List.append_nil, digitsValue, Nat.ofDigitChars_ten_toDigits] at h

theorem readsAs_magnitudeText {q : Rat} (hq : 0 ≤ q) (h : nearest q = finite q) :
    ∃ d : Decimal, d.toNumber = finite q ∧ d.negative = false ∧
      ∀ negative, ReadsAs (magnitudeText q) negative d.value := by
  rw [magnitudeText]
  split
  next hnat =>
    have hvalue : q = q.num.toNat := by
      have hnum : (q.num.toNat : ℤ) = q.num := Int.toNat_of_nonneg (Rat.num_nonneg.mpr hq)
      rw [← Int.cast_natCast, hnum]
      exact ((Rat.den_eq_one_iff q).mp hnat.1).symm
    refine ⟨⟨false, q.num.toNat, 0⟩, ?_, rfl, readsAs_toDigits _⟩
    rcases hq.eq_or_lt with rfl | hpos
    · rfl
    · rw [nearest_of_pos hpos] at h
      refine toNumber_of_close hpos h ?_
      rw [zpow_zero, mul_one, ← hvalue, sub_self, abs_zero]
      positivity
  next hlarge =>
    have hpos : 0 < q := by
      refine hq.lt_of_ne' ?_
      rintro rfl
      exact hlarge (by decide)
    rw [nearest_of_pos hpos] at h
    obtain ⟨hreads, hsign⟩ := shortest_spec hpos h
    refine ⟨shortest q, hreads, hsign, fun negative => ?_⟩
    rw [← digitsValue_trimmed]
    exact readsAs_layout negative _ isDigit_trimmed
      (trimmed_ne_nil (digits_shortest_ne_zero hpos h))

/-- The text of a binary64 number reads as the number. -/
theorem ofText_text {x : Number} (hx : x.IsBinary64) : ofText x.text = x := by
  cases x with
  | nan => rfl
  | infinite negative => cases negative <;> rfl
  | finite q =>
    rw [ofText, text, String.toList_ofList]
    split
    next hq =>
      have hnearest : nearest (-q) = finite (-q) := by
        have h := nearest_neg (neg_pos.mpr hq)
        rw [neg_neg] at h
        exact neg_eq_finite_iff.mp (h.symm.trans hx)
      obtain ⟨d, hd, hsign, hreads⟩ := readsAs_magnitudeText (neg_pos.mpr hq).le hnearest
      obtain ⟨d', hread, hnumber⟩ := (hreads true).exists_toNumber hsign
      have hwritten : ∀ c ∈ '-' :: magnitudeText (-q), IsWritten c :=
        List.forall_mem_cons.mpr ⟨Or.inr (by decide), isWritten_magnitudeText _⟩
      rw [trimBlanks_of_isWritten hwritten]
      change unsigned true _ = _
      rw [unsigned_of_isWritten true (isWritten_magnitudeText _), hread]
      change d'.toNumber = _
      rw [hnumber, if_pos rfl, hd, neg, neg_neg]
    next hq =>
      obtain ⟨d, hd, hsign, hreads⟩ := readsAs_magnitudeText (not_lt.mp hq) hx
      obtain ⟨d', hread, hnumber⟩ := (hreads false).exists_toNumber hsign
      rw [trimBlanks_of_isWritten (isWritten_magnitudeText q),
        read_of_isWritten (isWritten_magnitudeText q) hread, hnumber]
      exact hd

end Number

end AgentPrompts
