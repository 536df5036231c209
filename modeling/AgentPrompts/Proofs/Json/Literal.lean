import AgentPrompts.Json.Token
import AgentPrompts.Text.Quoted

/-! # Quoted texts as tokens

A quoted text is one token, whatever text it holds and whatever follows it, and it has no
character below U+0020. So a quoted text ends only where it was ended, on its own line.
-/

namespace AgentPrompts

namespace Json.Token

open Scan

/-- Reads one token that ends with its last character, and gives what follows it. -/
def read? (s : Scan) : List Char → Option (Scan × List Char)
  | [] => none
  | c :: cs =>
    match s.step? c with
    | none => none
    | some s' =>
      match s'.pending with
      | .nothing => some (s', cs)
      | _ => read? s' cs

theorem escape_cases (c : Char) :
    (∃ e, e ≠ 'u' ∧ escapeCode? e = some c.toNat ∧ Quoted.escape c = ['\\', e]) ∨
    (c.toNat < 0x20 ∧ Quoted.escape c = ['\\', 'u', '0', '0',
      Quoted.hexDigit (c.toNat / 16), Quoted.hexDigit (c.toNat % 16)]) ∨
    (c ≠ '"' ∧ c ≠ '\\' ∧ 0x20 ≤ c.toNat ∧ Quoted.escape c = [c]) := by
  by_cases h₁ : c = '"'
  · subst h₁; exact Or.inl ⟨'"', by decide⟩
  by_cases h₂ : c = '\\'
  · subst h₂; exact Or.inl ⟨'\\', by decide⟩
  by_cases h₃ : c = '\n'
  · subst h₃; exact Or.inl ⟨'n', by decide⟩
  by_cases h₄ : c = '\t'
  · subst h₄; exact Or.inl ⟨'t', by decide⟩
  by_cases h₅ : c = '\r'
  · subst h₅; exact Or.inl ⟨'r', by decide⟩
  by_cases h₆ : c = '\x08'
  · subst h₆; exact Or.inl ⟨'b', by decide⟩
  by_cases h₇ : c = '\x0c'
  · subst h₇; exact Or.inl ⟨'f', by decide⟩
  rw [Quoted.escape, if_neg h₁, if_neg h₂, if_neg h₃, if_neg h₄, if_neg h₅, if_neg h₆, if_neg h₇]
  by_cases hlow : c.toNat < 0x20
  · exact Or.inr (Or.inl ⟨hlow, if_pos hlow⟩)
  · exact Or.inr (Or.inr ⟨h₁, h₂, by omega, if_neg hlow⟩)

theorem digitValue?_hexDigit {n : Nat} (h : n < 16) :
    Numeral.digitValue? (Quoted.hexDigit n) = some n := by
  revert n
  decide

theorem read?_escape (c : Char) (codes : List Nat) (ts : List Token) (rest : List Char) :
    read? ⟨.text codes, ts⟩ (Quoted.escape c ++ rest) =
      read? ⟨.text (c.toNat :: codes), ts⟩ rest := by
  rcases escape_cases c with ⟨e, hu, hcode, he⟩ | ⟨hlow, he⟩ | ⟨hquote, hslash, hhigh, he⟩
  · simp [he, read?, step?, hu, hcode]
  · have hfirst := digitValue?_hexDigit (show c.toNat / 16 < 16 by omega)
    have hsecond := digitValue?_hexDigit (show c.toNat % 16 < 16 by omega)
    have hzero : Numeral.digitValue? '0' = some 0 := by decide
    simp [he, read?, step?, hfirst, hsecond, hzero, Nat.div_add_mod]
  · simp [he, read?, step?, hquote, hslash, Nat.not_lt.mpr hhigh]

theorem assemble_map_toNat (cs : List Char) : assemble (cs.map Char.toNat) = cs := by
  induction cs with
  | nil => rfl
  | cons c cs ih =>
    have hc : c.toNat < 0xD800 ∨ 0xDFFF < c.toNat ∧ c.toNat < 0x110000 := c.valid
    rw [List.map_cons, assemble.eq_def]
    have h₁ : ¬ (0xD800 ≤ c.toNat ∧ c.toNat < 0xDC00) := by omega
    have h₂ : ¬ (0xDC00 ≤ c.toNat ∧ c.toNat < 0xE000) := by omega
    simp only [if_neg h₁, if_neg h₂, Char.ofNat_toNat, ih]

theorem read?_flatMap_escape (cs : List Char) (codes : List Nat) (ts : List Token)
    (rest : List Char) :
    read? ⟨.text codes, ts⟩ (cs.flatMap Quoted.escape ++ rest) =
      read? ⟨.text ((cs.map Char.toNat).reverse ++ codes), ts⟩ rest := by
  induction cs generalizing codes with
  | nil => rfl
  | cons c cs ih =>
    rw [List.flatMap_cons, List.append_assoc, read?_escape, ih, List.map_cons,
      List.reverse_cons, List.append_assoc, List.singleton_append]

/-- A quoted text is read back, whatever follows it. -/
theorem read?_encode (cs : List Char) (ts : List Token) (rest : List Char) :
    read? ⟨.nothing, ts⟩ (Quoted.encode cs ++ rest) =
      some (⟨.nothing, .scalar (.text (String.ofList cs)) :: ts⟩, rest) := by
  have hopen : read? ⟨.nothing, ts⟩ (Quoted.encode cs ++ rest) =
      read? ⟨.text [], ts⟩ (cs.flatMap Quoted.escape ++ '"' :: rest) := by
    simp [Quoted.encode, read?, step?, begin?, isSpace, isBare]
  have hclose : read? ⟨.text (cs.map Char.toNat).reverse, ts⟩ ('"' :: rest) =
      some (⟨.nothing, .scalar (.text (String.ofList (assemble (cs.map Char.toNat)))) :: ts⟩,
        rest) := by
    simp [read?, step?, emit]
  rw [hopen, read?_flatMap_escape, List.append_nil, hclose, assemble_map_toNat]

theorem hexDigit_ge {n : Nat} (h : n < 16) : 0x20 ≤ (Quoted.hexDigit n).toNat := by
  revert n
  decide

theorem ge_of_mem_encode {cs : List Char} {c : Char} (hc : c ∈ Quoted.encode cs) :
    0x20 ≤ c.toNat := by
  have hescape (b : Char) : ∀ c ∈ Quoted.escape b, 0x20 ≤ c.toNat := by
    rcases escape_cases b with ⟨e, -, hcode, he⟩ | ⟨hlow, he⟩ | ⟨-, -, hhigh, he⟩
    · have hletter : 0x20 ≤ e.toNat := by
        unfold escapeCode? at hcode
        split at hcode <;> first | decide | cases hcode
      rw [he]
      simpa using hletter
    · rw [he]
      simp [hexDigit_ge (show b.toNat / 16 < 16 by omega),
        hexDigit_ge (show b.toNat % 16 < 16 by omega)]
    · simpa [he] using hhigh
  simp only [Quoted.encode, List.mem_cons, List.mem_append, List.mem_flatMap] at hc
  rcases hc with rfl | ⟨b, -, hb⟩ | rfl | hc
  · decide
  · exact hescape b c hb
  · decide
  · cases hc

end Json.Token

end AgentPrompts
