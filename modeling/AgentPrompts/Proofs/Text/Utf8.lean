import Mathlib.Algebra.Ring.Nat
import AgentPrompts.Text.Utf8

/-! # UTF-8 round trip

What was written as UTF-8 is read back as the same text. A character takes one to four
bytes, and each form is read back on its own, whatever bytes follow. Joining texts adds
their sizes.
-/

namespace AgentPrompts.Utf8

theorem isContinuation_iff (b : UInt8) : isContinuation b ↔ 0x80 ≤ b.toNat ∧ b.toNat ≤ 0xBF := by
  simp [isContinuation, UInt8.le_iff_toNat_le]

theorem isSecond_iff (a b : UInt8) : isSecond a b ↔
    (if a.toNat = 0xE0 then 0xA0 else if a.toNat = 0xF0 then 0x90 else 0x80) ≤ b.toNat ∧
    b.toNat ≤ (if a.toNat = 0xED then 0x9F else if a.toNat = 0xF4 then 0x8F else 0xBF) := by
  simp only [isSecond, isContinuation, ← UInt8.toNat_inj, UInt8.le_iff_toNat_le,
    UInt8.reduceToNat]
  grind

theorem decodeChars_one {a : UInt8} (ha : a.toNat < 0x80) (bs : List UInt8) :
    decodeChars (a :: bs) = Char.ofNat a.toNat :: decodeChars bs := by
  have h : a < 0x80 := UInt8.lt_iff_toNat_lt.mpr ha
  rw [decodeChars.eq_def]
  simp [h]

theorem decodeChars_two {a b : UInt8} (h : 0xC2 ≤ a.toNat) (h' : a.toNat ≤ 0xDF)
    (hb : isContinuation b) (bs : List UInt8) :
    decodeChars (a :: b :: bs) = scalar2 a b :: decodeChars bs := by
  have h₁ : ¬ a.toNat < 128 := by omega
  rw [decodeChars.eq_def]
  simp [UInt8.le_iff_toNat_le, UInt8.lt_iff_toNat_lt, hb, h, h', h₁]

theorem decodeChars_three {a b c : UInt8} (h : 0xE0 ≤ a.toNat) (h' : a.toNat ≤ 0xEF)
    (hb : isSecond a b) (hc : isContinuation c) (bs : List UInt8) :
    decodeChars (a :: b :: c :: bs) = scalar3 a b c :: decodeChars bs := by
  have h₁ : ¬ a.toNat < 128 := by omega
  have h₂ : ¬ a.toNat ≤ 223 := by omega
  rw [decodeChars.eq_def]
  simp [UInt8.le_iff_toNat_le, UInt8.lt_iff_toNat_lt, hb, hc, h, h', h₁, h₂]

theorem decodeChars_four {a b c d : UInt8} (h : 0xF0 ≤ a.toNat) (h' : a.toNat ≤ 0xF4)
    (hb : isSecond a b) (hc : isContinuation c) (hd : isContinuation d) (bs : List UInt8) :
    decodeChars (a :: b :: c :: d :: bs) = scalar4 a b c d :: decodeChars bs := by
  have h₁ : ¬ a.toNat < 128 := by omega
  have h₂ : ¬ a.toNat ≤ 223 := by omega
  have h₃ : ¬ a.toNat ≤ 239 := by omega
  rw [decodeChars.eq_def]
  simp [UInt8.le_iff_toNat_le, UInt8.lt_iff_toNat_lt, hb, hc, hd, h, h', h₁, h₂, h₃]

def tail (n : Nat) : UInt8 := UInt8.ofNat (n % 64 + 0x80)

theorem toNat_tail (n : Nat) : (tail n).toNat = n % 64 + 0x80 := by
  simp only [tail, UInt8.toNat_ofNat']; omega

theorem isContinuation_tail (n : Nat) : isContinuation (tail n) := by
  rw [isContinuation_iff, toNat_tail]; omega

theorem payload_tail (n : Nat) : payload (tail n) = n % 64 := by
  rw [payload, toNat_tail]; omega

section Characters

variable {c : Char} (bs : List UInt8)

theorem encodeChar_one (h : c.toNat ≤ 0x7F) :
    String.utf8EncodeChar c = [UInt8.ofNat c.toNat] := by
  simp only [String.utf8EncodeChar, Char.toNat] at *
  rw [if_pos h]

theorem encodeChar_two (h : ¬ c.toNat ≤ 0x7F) (h' : c.toNat ≤ 0x7FF) :
    ∃ a, String.utf8EncodeChar c = [a, tail c.toNat] ∧ a.toNat = c.toNat / 64 + 0xC0 := by
  refine ⟨UInt8.ofNat (c.toNat / 64 % 32 + 0xC0), ?_, by rw [UInt8.toNat_ofNat']; omega⟩
  simp only [String.utf8EncodeChar, Char.toNat] at *
  rw [if_neg h, if_pos h']
  rfl

theorem encodeChar_three (h : ¬ c.toNat ≤ 0x7FF) (h' : c.toNat ≤ 0xFFFF) :
    ∃ a, String.utf8EncodeChar c = [a, tail (c.toNat / 64), tail c.toNat] ∧
      a.toNat = c.toNat / 4096 + 0xE0 := by
  refine ⟨UInt8.ofNat (c.toNat / 4096 % 16 + 0xE0), ?_, by rw [UInt8.toNat_ofNat']; omega⟩
  have h₁ : ¬ c.toNat ≤ 0x7F := by omega
  simp only [String.utf8EncodeChar, Char.toNat] at *
  rw [if_neg h₁, if_neg h, if_pos h']
  rfl

theorem encodeChar_four (h : ¬ c.toNat ≤ 0xFFFF) :
    ∃ a, String.utf8EncodeChar c =
        [a, tail (c.toNat / 4096), tail (c.toNat / 64), tail c.toNat] ∧
      a.toNat = c.toNat / 262144 + 0xF0 := by
  have hc : c.toNat < 0xD800 ∨ 0xDFFF < c.toNat ∧ c.toNat < 0x110000 := c.valid
  refine ⟨UInt8.ofNat (c.toNat / 262144 % 8 + 0xF0), ?_, by rw [UInt8.toNat_ofNat']; omega⟩
  have h₁ : ¬ c.toNat ≤ 0x7F := by omega
  have h₂ : ¬ c.toNat ≤ 0x7FF := by omega
  simp only [String.utf8EncodeChar, Char.toNat] at *
  rw [if_neg h₁, if_neg h₂, if_neg h]
  rfl

theorem isSecond_three {a : UInt8} (h : ¬ c.toNat ≤ 0x7FF) (h' : c.toNat ≤ 0xFFFF)
    (ha : a.toNat = c.toNat / 4096 + 0xE0) : isSecond a (tail (c.toNat / 64)) := by
  have hc : c.toNat < 0xD800 ∨ 0xDFFF < c.toNat ∧ c.toNat < 0x110000 := c.valid
  rw [isSecond_iff, ha, toNat_tail]
  grind

theorem isSecond_four {a : UInt8} (h : ¬ c.toNat ≤ 0xFFFF)
    (ha : a.toNat = c.toNat / 262144 + 0xF0) : isSecond a (tail (c.toNat / 4096)) := by
  have hc : c.toNat < 0xD800 ∨ 0xDFFF < c.toNat ∧ c.toNat < 0x110000 := c.valid
  rw [isSecond_iff, ha, toNat_tail]
  grind

theorem decodeChars_encodeChar_one (h : c.toNat ≤ 0x7F) :
    decodeChars (String.utf8EncodeChar c ++ bs) = c :: decodeChars bs := by
  have hn : (UInt8.ofNat c.toNat).toNat = c.toNat := by rw [UInt8.toNat_ofNat']; omega
  rw [encodeChar_one h, List.singleton_append, decodeChars_one (by omega), hn, Char.ofNat_toNat]

theorem decodeChars_encodeChar_two (h : ¬ c.toNat ≤ 0x7F) (h' : c.toNat ≤ 0x7FF) :
    decodeChars (String.utf8EncodeChar c ++ bs) = c :: decodeChars bs := by
  obtain ⟨a, he, ha⟩ := encodeChar_two h h'
  have hv : (c.toNat / 64 + 0xC0) % 32 * 64 + c.toNat % 64 = c.toNat := by omega
  rw [he, List.cons_append, List.singleton_append,
    decodeChars_two (by omega) (by omega) (isContinuation_tail _), scalar2, ha, payload_tail,
    hv, Char.ofNat_toNat]

theorem decodeChars_encodeChar_three (h : ¬ c.toNat ≤ 0x7FF) (h' : c.toNat ≤ 0xFFFF) :
    decodeChars (String.utf8EncodeChar c ++ bs) = c :: decodeChars bs := by
  obtain ⟨a, he, ha⟩ := encodeChar_three h h'
  have hv : (c.toNat / 4096 + 0xE0) % 16 * 4096 + c.toNat / 64 % 64 * 64 + c.toNat % 64 =
      c.toNat := by omega
  rw [he, List.cons_append, List.cons_append, List.singleton_append,
    decodeChars_three (by omega) (by omega) (isSecond_three h h' ha) (isContinuation_tail _),
    scalar3, ha, payload_tail, payload_tail, hv, Char.ofNat_toNat]

theorem decodeChars_encodeChar_four (h : ¬ c.toNat ≤ 0xFFFF) :
    decodeChars (String.utf8EncodeChar c ++ bs) = c :: decodeChars bs := by
  have hc : c.toNat < 0xD800 ∨ 0xDFFF < c.toNat ∧ c.toNat < 0x110000 := c.valid
  obtain ⟨a, he, ha⟩ := encodeChar_four h
  have hv : (c.toNat / 262144 + 0xF0) % 8 * 262144 + c.toNat / 4096 % 64 * 4096 +
      c.toNat / 64 % 64 * 64 + c.toNat % 64 = c.toNat := by omega
  rw [he, List.cons_append, List.cons_append, List.cons_append, List.singleton_append,
    decodeChars_four (by omega) (by omega) (isSecond_four h ha) (isContinuation_tail _)
      (isContinuation_tail _),
    scalar4, ha, payload_tail, payload_tail, payload_tail, hv, Char.ofNat_toNat]

theorem decodeChars_encodeChar (c : Char) :
    decodeChars (String.utf8EncodeChar c ++ bs) = c :: decodeChars bs := by
  by_cases h₁ : c.toNat ≤ 0x7F
  · exact decodeChars_encodeChar_one bs h₁
  by_cases h₂ : c.toNat ≤ 0x7FF
  · exact decodeChars_encodeChar_two bs h₁ h₂
  by_cases h₃ : c.toNat ≤ 0xFFFF
  · exact decodeChars_encodeChar_three bs h₂ h₃
  · exact decodeChars_encodeChar_four bs h₃

end Characters

theorem decodeChars_flatMap_append (cs : List Char) (bs : List UInt8) :
    decodeChars (cs.flatMap String.utf8EncodeChar ++ bs) = cs ++ decodeChars bs := by
  induction cs with
  | nil => rfl
  | cons c cs ih =>
    rw [List.flatMap_cons, List.append_assoc, decodeChars_encodeChar, ih, List.cons_append]

theorem decodeChars_flatMap (cs : List Char) :
    decodeChars (cs.flatMap String.utf8EncodeChar) = cs := by
  have h := decodeChars_flatMap_append cs []
  rwa [List.append_nil, decodeChars, List.append_nil] at h

@[simp] theorem decode_encode (s : String) : decode (encode s) = s := by
  rw [decode, encode, decodeChars_flatMap, String.ofList_toList]

theorem utf8ByteSize_eq_sum (s : String) :
    s.utf8ByteSize = (s.toList.map Char.utf8Size).sum := by
  have h : ∀ cs : List Char, (String.ofList cs).utf8ByteSize = (cs.map Char.utf8Size).sum := by
    intro cs
    induction cs with
    | nil => simp
    | cons c cs ih =>
      rw [String.ofList_cons, String.utf8ByteSize_append, String.utf8ByteSize_singleton, ih,
        List.map_cons, List.sum_cons]
  simpa using h s.toList

theorem utf8ByteSize_le (s : String) : s.utf8ByteSize ≤ 4 * s.toList.length := by
  rw [utf8ByteSize_eq_sum]
  induction s.toList with
  | nil => simp
  | cons c cs ih =>
    have hc := c.utf8Size_le_four
    rw [List.map_cons, List.sum_cons, List.length_cons]
    omega

/-- The size of joined texts, with one separator counted too many. -/
theorem utf8ByteSize_intercalate (parts : List String) (hne : parts ≠ []) :
    (String.intercalate "/" parts).utf8ByteSize + 1 =
      (parts.map fun part => part.utf8ByteSize + 1).sum := by
  induction parts with
  | nil => exact absurd rfl hne
  | cons part parts ih =>
    cases parts with
    | nil => simp
    | cons next parts =>
      have hsep : ("/" : String).utf8ByteSize = 1 := by decide
      rw [String.intercalate_cons_cons, String.utf8ByteSize_append, String.utf8ByteSize_append,
        hsep, List.map_cons, List.sum_cons, ← ih (List.cons_ne_nil next parts)]
      omega

end AgentPrompts.Utf8
