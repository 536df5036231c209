import AgentPrompts.Prompt
import AgentPrompts.Proofs.Number.Agents
import AgentPrompts.Proofs.Path.Normal
import AgentPrompts.Proofs.Text.Utf8

/-! # Names of prompt files

The name of a prompt file is a short name without slashes, and agents with different
numbers have different names.
-/

namespace AgentPrompts

open Number

variable {n m : Nat}

theorem toList_paddedAgent (h : n < exactBound) : (paddedAgent (.ofNat n)).toList =
    List.replicate (2 - (Nat.toDigits 10 n).length) '0' ++ Nat.toDigits 10 n := by
  rw [paddedAgent, text_ofNat h]
  simp

theorem ofDigitChars_paddedAgent (h : n < exactBound) :
    Nat.ofDigitChars 10 (paddedAgent (.ofNat n)).toList 0 = n := by
  rw [toList_paddedAgent h, Nat.ofDigitChars_append, Nat.ofDigitChars_replicate_zero,
    Nat.mul_zero, Nat.ofDigitChars_ten_toDigits]

theorem isDigit_of_mem_paddedAgent (h : n < exactBound) {c : Char}
    (hc : c ∈ (paddedAgent (.ofNat n)).toList) : c.isDigit := by
  rw [toList_paddedAgent h, List.mem_append] at hc
  rcases hc with hc | hc
  · rw [List.eq_of_mem_replicate hc]
    decide
  · exact Nat.isDigit_of_mem_toDigits (by decide) (by decide) hc

theorem length_paddedAgent_le (h : n < exactBound) :
    (paddedAgent (.ofNat n)).toList.length ≤ 18 := by
  have hle : n < 10 ^ 16 := h.trans (by decide)
  have hd := (Nat.length_toDigits_le_iff (b := 10) (by decide) (by decide)).mpr hle
  rw [toList_paddedAgent h, List.length_append, List.length_replicate]
  omega

theorem toList_promptFileName (a : Number) : (promptFileName a).toList =
    "agent_".toList ++ ((paddedAgent a).toList ++ ".md".toList) := by
  rw [promptFileName, String.toList_append, String.toList_append, List.append_assoc]

theorem promptFileName_inj (hn : n < exactBound) (hm : m < exactBound)
    (h : promptFileName (.ofNat n) = promptFileName (.ofNat m)) : n = m := by
  have hl := congrArg String.toList h
  rw [toList_promptFileName, toList_promptFileName] at hl
  have hp := List.append_cancel_right (List.append_cancel_left hl)
  rw [← ofDigitChars_paddedAgent hn, hp, ofDigitChars_paddedAgent hm]

theorem not_mem_promptFileName (h : n < exactBound) {c : Char} (hd : c.isDigit = false)
    (ha : c ∉ "agent_".toList) (hm : c ∉ ".md".toList) :
    c ∉ (promptFileName (.ofNat n)).toList := by
  rw [toList_promptFileName, List.mem_append, List.mem_append]
  rintro (hc | hc | hc)
  · exact ha hc
  · rw [isDigit_of_mem_paddedAgent h hc] at hd
    cases hd
  · exact hm hc

theorem promptFilePath_inj {outDir : String} (hn : n < exactBound) (hm : m < exactBound)
    (h : promptFilePath outDir (.ofNat n) = promptFilePath outDir (.ofNat m)) : n = m := by
  have hslash : ∀ {k : Nat}, k < exactBound → '/' ∉ (promptFileName (.ofNat k)).toList :=
    fun hk => not_mem_promptFileName hk (by decide) (by decide) (by decide)
  have hparts := congrArg pathParts h
  rw [promptFilePath, promptFilePath, pathParts_joinPath outDir (hslash hn),
    pathParts_joinPath outDir (hslash hm)] at hparts
  have hnames := List.append_cancel_left (List.append_cancel_left hparts)
  exact promptFileName_inj hn hm (List.head_eq_of_cons_eq hnames)

theorem suffix_promptFilePath (outDir : String) (a : Number) :
    ".md".toList <:+ (promptFilePath outDir a).toList := by
  have hname : ".md".toList <:+ (promptFileName a).toList := by
    rw [toList_promptFileName, ← List.append_assoc]
    exact List.suffix_append _ _
  exact hname.trans (suffix_joinPath outDir _)

theorem isName_promptFileName (a : Number) : IsName (promptFileName a) := by
  have hl := toList_promptFileName a
  refine ⟨?_, ?_, ?_⟩ <;> intro he <;> rw [he] at hl <;> simp at hl

theorem utf8ByteSize_promptFileName_le (h : n < exactBound) :
    (promptFileName (.ofNat n)).utf8ByteSize ≤ 255 := by
  have hp := length_paddedAgent_le h
  have hl : (promptFileName (.ofNat n)).toList.length ≤ 27 := by
    rw [toList_promptFileName, List.length_append, List.length_append]
    have h₁ : "agent_".toList.length = 6 := by decide
    have h₂ : ".md".toList.length = 3 := by decide
    omega
  have hs := Utf8.utf8ByteSize_le (promptFileName (.ofNat n))
  omega

end AgentPrompts
