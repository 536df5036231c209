import AgentPrompts.Proofs.Prompt.Scanned
import AgentPrompts.Proofs.Text.Repaired

/-! # Prompts as bytes

In the bytes of a text the markers stand where they stand in the text, so replacing them byte
by byte gives the bytes of the prompt. Repairing bytes neither makes a marker nor loses one.
-/

namespace AgentPrompts

open Number Utf8

def markerBytes : List UInt8 := [0x7B, 0x4E, 0x7D]

def digitBytes (agent : Nat) : List UInt8 :=
  (Nat.toDigits 10 agent).map fun c => UInt8.ofNat c.toNat

theorem flatMap_marker : marker.toList.flatMap String.utf8EncodeChar = markerBytes := by decide

theorem flatMap_toDigits (n : Nat) :
    (Nat.toDigits 10 n).flatMap String.utf8EncodeChar = digitBytes n := by
  have hascii : ∀ c ∈ Nat.toDigits 10 n, String.utf8EncodeChar c = [UInt8.ofNat c.toNat] := by
    intro c hc
    have hdigit := Nat.isDigit_of_mem_toDigits (by decide) (by decide) hc
    have hlast : c.toNat ≤ '9'.toNat := (Char.isDigit_iff_toNat.mp hdigit).2
    exact encodeChar_one (hlast.trans (by decide))
  rw [digitBytes, List.flatMap_congr hascii, List.map_eq_flatMap]

theorem prefix_of_markerBytes_prefix {cs : List Char}
    (h : markerBytes <+: cs.flatMap String.utf8EncodeChar) : marker.toList <+: cs := by
  obtain ⟨behind, hbehind⟩ := h
  have hread := congrArg decodeChars hbehind
  rw [← flatMap_marker, decodeChars_flatMap_append, decodeChars_flatMap] at hread
  exact ⟨_, hread⟩

theorem replaceAll_flatMap (new cs : List Char) :
    replaceAll markerBytes (new.flatMap String.utf8EncodeChar)
        (cs.flatMap String.utf8EncodeChar) =
      (replaceAll marker.toList new cs).flatMap String.utf8EncodeChar := by
  have hmarker : marker.toList ≠ [] := by decide
  induction cs using scan_induction hmarker with
  | nil => rfl
  | occurrence cs ih =>
    rw [List.flatMap_append, flatMap_marker, replaceAll_occurrence (by decide),
      replaceAll_occurrence hmarker, ih, List.flatMap_append]
  | copy c cs hbegin ih =>
    have hbegin' := mt prefix_of_markerBytes_prefix hbegin
    obtain ⟨first, more, hc⟩ := List.exists_cons_of_ne_nil (String.utf8EncodeChar_ne_nil (c := c))
    have hmore : 0x7B ∉ more := fun h =>
      absurd (not_ascii_of_isChar (hc ▸ isChar_encodeChar c) h) (by decide)
    rw [List.flatMap_cons, hc, List.cons_append] at hbegin' ⊢
    rw [replaceAll_copy hbegin', markerBytes, replaceAll_copy_all hmore, ← markerBytes, ih,
      replaceAll_copy hbegin, List.flatMap_cons, hc, List.cons_append]

/-- The bytes of a prompt are those of its template with the markers replaced. -/
theorem encode_renderPrompt {n : Nat} (hn : n < exactBound) (template : String) :
    encode (renderPrompt template (ofNat n)) =
      replaceAll markerBytes (digitBytes n) (encode template) := by
  rw [encode, toList_renderPrompt hn, ← replaceAll_flatMap, flatMap_toDigits, encode]

/-- Repaired bytes hold the markers of the bytes and no others, between what was repaired in
front of them and behind them. -/
structure MarkersKept (bytes repaired : List UInt8) : Prop where
  kept : ∀ front back, bytes = front ++ markerBytes ++ back →
    ∃ front' back', repaired = front' ++ markerBytes ++ back' ∧
      Repaired front front' ∧ Repaired back back'
  original : ∀ front' back', repaired = front' ++ markerBytes ++ back' →
    ∃ front back, bytes = front ++ markerBytes ++ back ∧
      Repaired front front' ∧ Repaired back back'

theorem markersKept_of_repaired {bytes repaired : List UInt8} (h : Repaired bytes repaired) :
    MarkersKept bytes repaired := by
  have hopen : (0x7B : UInt8).toNat < 0x80 := by decide
  have hletter : (0x4E : UInt8).toNat < 0x80 := by decide
  have hclose : (0x7D : UInt8).toNat < 0x80 := by decide
  refine ⟨?_, ?_⟩
  · rintro front back rfl
    have hfront : Repaired front (encode (decode front)) := repaired_iff.mpr rfl
    have hback : Repaired back (encode (decode back)) := repaired_iff.mpr rfl
    have hbehind := ((hback.cons_ascii hclose).cons_ascii hletter).cons_ascii hopen
    rw [List.append_assoc] at h
    refine ⟨_, _, ?_, hfront, hback⟩
    rw [List.append_assoc]
    exact (hfront.append_ascii hopen hbehind).unique h
  · rintro front' back' rfl
    rw [List.append_assoc] at h
    obtain ⟨front, bytes₁, rfl, hfront, h₁⟩ := h.exists_ascii hopen
    obtain ⟨bytes₂, rfl, h₂⟩ := h₁.exists_cons_ascii hletter
    obtain ⟨back, rfl, hback⟩ := h₂.exists_cons_ascii hclose
    exact ⟨front, back, by rw [List.append_assoc]; rfl, hfront, hback⟩

end AgentPrompts
