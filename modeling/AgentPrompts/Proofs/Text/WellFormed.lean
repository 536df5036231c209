import AgentPrompts.Proofs.Text.Utf8

/-! # Well-formed sequences

The sequences of bytes that encode a character are those of four forms, told apart by their
first bytes. An ASCII byte is a sequence of its own and stands in no other, so it never lies
within the bytes of a character.
-/

namespace AgentPrompts.Utf8

inductive IsChar : List UInt8 → Prop where
  | one {a : UInt8} (ha : a.toNat < 0x80) : IsChar [a]
  | two {a b : UInt8} (ha : 0xC2 ≤ a.toNat) (ha' : a.toNat ≤ 0xDF) (hb : isContinuation b) :
      IsChar [a, b]
  | three {a b c : UInt8} (ha : 0xE0 ≤ a.toNat) (ha' : a.toNat ≤ 0xEF) (hb : isSecond a b)
      (hc : isContinuation c) : IsChar [a, b, c]
  | four {a b c d : UInt8} (ha : 0xF0 ≤ a.toNat) (ha' : a.toNat ≤ 0xF4) (hb : isSecond a b)
      (hc : isContinuation c) (hd : isContinuation d) : IsChar [a, b, c, d]

theorem isChar_encodeChar (c : Char) : IsChar (String.utf8EncodeChar c) := by
  have hc : c.toNat < 0xD800 ∨ 0xDFFF < c.toNat ∧ c.toNat < 0x110000 := c.valid
  by_cases h₁ : c.toNat ≤ 0x7F
  · rw [encodeChar_one h₁]
    exact .one (by rw [UInt8.toNat_ofNat']; omega)
  by_cases h₂ : c.toNat ≤ 0x7FF
  · obtain ⟨a, he, ha⟩ := encodeChar_two h₁ h₂
    rw [he]
    exact .two (by omega) (by omega) (isContinuation_tail _)
  by_cases h₃ : c.toNat ≤ 0xFFFF
  · obtain ⟨a, he, ha⟩ := encodeChar_three h₂ h₃
    rw [he]
    exact .three (by omega) (by omega) (isSecond_three h₂ h₃ ha) (isContinuation_tail _)
  · obtain ⟨a, he, ha⟩ := encodeChar_four h₃
    rw [he]
    exact .four (by omega) (by omega) (isSecond_four h₃ ha) (isContinuation_tail _)
      (isContinuation_tail _)

section Scalars

variable {a b c d : UInt8}

theorem toNat_ofNat {n : Nat} (h : n.isValidChar) : (Char.ofNat n).toNat = n := by
  rw [Char.ofNat, dif_pos h]
  rfl

theorem eq_tail (hb : isContinuation b) {n : Nat} (h : n % 64 = payload b) : tail n = b := by
  obtain ⟨h₁, h₂⟩ := (isContinuation_iff b).mp hb
  rw [payload] at h
  rw [← UInt8.toNat_inj, toNat_tail]
  omega

theorem isContinuation_of_isSecond (h : isSecond a b) : isContinuation b := by
  rw [isSecond_iff] at h
  rw [isContinuation_iff]
  grind

/-- What a second byte carries keeps the character in its range and off the surrogates. -/
theorem payload_of_isSecond (h : isSecond a b) : payload b < 64 ∧
    (a.toNat = 0xE0 → 0x20 ≤ payload b) ∧ (a.toNat = 0xED → payload b < 0x20) ∧
    (a.toNat = 0xF0 → 0x10 ≤ payload b) ∧ (a.toNat = 0xF4 → payload b < 0x10) := by
  rw [isSecond_iff] at h
  rw [payload]
  grind

theorem encodeChar_ascii (ha : a.toNat < 0x80) :
    String.utf8EncodeChar (Char.ofNat a.toNat) = [a] := by
  have hn : (Char.ofNat a.toNat).toNat = a.toNat := toNat_ofNat (Or.inl (by omega))
  rw [encodeChar_one (by omega), hn, UInt8.ofNat_toNat]

theorem encodeChar_scalar2 (ha : 0xC2 ≤ a.toNat) (ha' : a.toNat ≤ 0xDF) (hb : isContinuation b) :
    String.utf8EncodeChar (scalar2 a b) = [a, b] := by
  have hlt : payload b < 64 := Nat.mod_lt _ (by decide)
  have hn : (scalar2 a b).toNat = a.toNat % 32 * 64 + payload b :=
    toNat_ofNat (Or.inl (by omega))
  obtain ⟨first, he, hfirst⟩ := encodeChar_two (c := scalar2 a b) (by omega) (by omega)
  have hfirst' : first = a := by rw [← UInt8.toNat_inj]; omega
  rw [he, hfirst', eq_tail hb (by omega)]

theorem encodeChar_scalar3 (ha : 0xE0 ≤ a.toNat) (ha' : a.toNat ≤ 0xEF) (hb : isSecond a b)
    (hc : isContinuation c) : String.utf8EncodeChar (scalar3 a b c) = [a, b, c] := by
  have hlt : payload c < 64 := Nat.mod_lt _ (by decide)
  have hb' := isContinuation_of_isSecond hb
  have hrange := payload_of_isSecond hb
  have hn : (scalar3 a b c).toNat = a.toNat % 16 * 4096 + payload b * 64 + payload c := by
    refine toNat_ofNat ?_
    rw [Nat.isValidChar]
    omega
  obtain ⟨first, he, hfirst⟩ := encodeChar_three (c := scalar3 a b c) (by omega) (by omega)
  have hfirst' : first = a := by rw [← UInt8.toNat_inj]; omega
  rw [he, hfirst', eq_tail hb' (by omega), eq_tail hc (by omega)]

theorem encodeChar_scalar4 (ha : 0xF0 ≤ a.toNat) (ha' : a.toNat ≤ 0xF4) (hb : isSecond a b)
    (hc : isContinuation c) (hd : isContinuation d) :
    String.utf8EncodeChar (scalar4 a b c d) = [a, b, c, d] := by
  have hlt : payload c < 64 := Nat.mod_lt _ (by decide)
  have hlt' : payload d < 64 := Nat.mod_lt _ (by decide)
  have hb' := isContinuation_of_isSecond hb
  have hrange := payload_of_isSecond hb
  have hn : (scalar4 a b c d).toNat =
      a.toNat % 8 * 262144 + payload b * 4096 + payload c * 64 + payload d := by
    refine toNat_ofNat ?_
    rw [Nat.isValidChar]
    omega
  obtain ⟨first, he, hfirst⟩ := encodeChar_four (c := scalar4 a b c d) (by omega)
  have hfirst' : first = a := by rw [← UInt8.toNat_inj]; omega
  rw [he, hfirst', eq_tail hb' (by omega), eq_tail hc (by omega), eq_tail hd (by omega)]

end Scalars

theorem not_ascii_of_isChar {first b : UInt8} {bytes : List UInt8} (h : IsChar (first :: bytes))
    (hb : b ∈ bytes) : 0x80 ≤ b.toNat := by
  have hcont {b : UInt8} (hb : isContinuation b) : 0x80 ≤ b.toNat :=
    ((isContinuation_iff b).mp hb).1
  cases h with
  | one => cases hb
  | two _ _ h₂ =>
    rw [List.mem_singleton.mp hb]
    exact hcont h₂
  | three _ _ h₂ h₃ =>
    simp only [List.mem_cons, List.not_mem_nil, or_false] at hb
    rcases hb with rfl | rfl
    · exact hcont (isContinuation_of_isSecond h₂)
    · exact hcont h₃
  | four _ _ h₂ h₃ h₄ =>
    simp only [List.mem_cons, List.not_mem_nil, or_false] at hb
    rcases hb with rfl | rfl | rfl
    · exact hcont (isContinuation_of_isSecond h₂)
    · exact hcont h₃
    · exact hcont h₄

theorem eq_singleton_of_isChar {a : UInt8} {bytes : List UInt8} (h : IsChar (a :: bytes))
    (ha : a.toNat < 0x80) : bytes = [] := by
  cases h with
  | one => rfl
  | _ => omega

end AgentPrompts.Utf8
