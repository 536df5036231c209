import Mathlib.Data.List.Infix
import AgentPrompts.Prompt
import AgentPrompts.Proofs.Number.Agents

/-! # Rendered prompts

A rendered prompt holds no marker, so rendering it once more changes nothing. Templates
without a marker are rendered as they are, and a template with a marker is rendered
differently for different agents.
-/

namespace AgentPrompts

open Number

section Pieces

variable {cs : List Char}

theorem prefix_of_pieces {p : List Char} {ps : List (List Char)} (h : pieces cs = p :: ps) :
    p <+: cs := by
  have hjoin := intercalate_pieces cs
  rw [h] at hjoin
  rw [← hjoin]
  cases ps with
  | nil => rw [List.intercalate_singleton]
  | cons q ps =>
    rw [List.intercalate_cons_cons, List.append_assoc]
    exact List.prefix_append _ _

theorem pieces_cons {c : Char} (h : ¬ marker.toList <+: c :: cs) {p : List Char}
    {ps : List (List Char)} (hp : pieces cs = p :: ps) : pieces (c :: cs) = (c :: p) :: ps := by
  rw [pieces.eq_def]
  split
  next he => cases he
  next rest he =>
    obtain ⟨rfl, rfl⟩ := List.cons.inj he
    exact absurd ⟨rest, rfl⟩ h
  next he =>
    obtain ⟨rfl, rfl⟩ := List.cons.inj he
    rw [hp]

theorem not_marker_of_mem_pieces {p : List Char} (hp : p ∈ pieces cs) :
    ¬ marker.toList <:+: p := by
  have hm : marker.toList = ['{', 'N', '}'] := by decide
  fun_induction pieces cs generalizing p with
  | case1 =>
    rw [List.mem_singleton.mp hp, hm]
    decide
  | case2 cs ih =>
    rcases List.mem_cons.mp hp with rfl | hp
    · rw [hm]
      decide
    · exact ih hp
  | case3 c cs hc h ih => exact absurd h (pieces_ne_nil cs)
  | case4 c cs hc q qs h ih =>
    rcases List.mem_cons.mp hp with rfl | hp
    · rw [List.infix_cons_iff]
      rintro (hbegin | hin)
      · obtain ⟨rest, hrest⟩ := hbegin.trans (List.cons_prefix_cons.mpr ⟨rfl, prefix_of_pieces h⟩)
        rw [hm] at hrest
        obtain ⟨rfl, rfl⟩ := List.cons.inj hrest
        exact hc rest rfl rfl
      · exact ih (h ▸ List.mem_cons_self) hin
    · exact ih (h ▸ List.mem_cons_of_mem q hp)

theorem pieces_of_not_marker (h : ¬ marker.toList <:+: cs) : pieces cs = [cs] := by
  induction cs with
  | nil => rfl
  | cons c cs ih =>
    rw [List.infix_cons_iff, not_or] at h
    exact pieces_cons h.1 (ih h.2)

end Pieces

section Joined

variable {m p q sep : List Char} {ps : List (List Char)}

theorem infix_of_append_cons {c : Char} (hc : c ∉ m) (h : m <:+: p ++ c :: q) :
    m <:+: p ∨ m <:+: q := by
  rcases List.infix_append_iff.mp h with h | h | ⟨front, back, rfl, hfront, hback⟩
  · exact Or.inl h
  · rcases List.infix_cons_iff.mp h with h | h
    · rcases List.prefix_cons_iff.mp h with rfl | ⟨rest, rfl, _⟩
      · exact Or.inl List.nil_infix
      · exact absurd List.mem_cons_self hc
    · exact Or.inr h
  · rcases List.prefix_cons_iff.mp hback with rfl | ⟨rest, rfl, _⟩
    · rw [List.append_nil]
      exact Or.inl hfront.isInfix
    · exact absurd (List.mem_append_right front List.mem_cons_self) hc

/-- A word that shares no character with a separator does not cross it. -/
theorem infix_of_append_separator (hne : sep ≠ []) (hs : ∀ c ∈ sep, c ∉ m)
    (h : m <:+: p ++ sep ++ q) : m <:+: p ∨ m <:+: q := by
  induction sep generalizing p with
  | nil => exact absurd rfl hne
  | cons c sep ih =>
    obtain ⟨hc, hrest⟩ := List.forall_mem_cons.mp hs
    rw [List.append_assoc, List.cons_append] at h
    rcases infix_of_append_cons hc h with h | h
    · exact Or.inl h
    · cases sep with
      | nil => exact Or.inr h
      | cons d sep =>
        rcases ih (p := []) (List.cons_ne_nil d sep) hrest h with h | h
        · exact Or.inl (h.trans List.nil_infix)
        · exact Or.inr h

theorem infix_of_intercalate (hm : m ≠ []) (hne : sep ≠ []) (hs : ∀ c ∈ sep, c ∉ m)
    (h : m <:+: List.intercalate sep ps) : ∃ p ∈ ps, m <:+: p := by
  induction ps with
  | nil => exact absurd (List.infix_nil.mp h) hm
  | cons p ps ih =>
    cases ps with
    | nil =>
      rw [List.intercalate_singleton] at h
      exact ⟨p, List.mem_cons_self, h⟩
    | cons q ps =>
      rw [List.intercalate_cons_cons] at h
      rcases infix_of_append_separator hne hs h with h | h
      · exact ⟨p, List.mem_cons_self, h⟩
      · obtain ⟨r, hr, hin⟩ := ih h
        exact ⟨r, List.mem_cons_of_mem p hr, hin⟩

theorem length_intercalate_cons (sep p : List Char) (ps : List (List Char)) :
    (List.intercalate sep (p :: ps)).length =
      ((p :: ps).map List.length).sum + ps.length * sep.length := by
  induction ps generalizing p with
  | nil => simp
  | cons q ps ih =>
    rw [List.intercalate_cons_cons, List.length_append, List.length_append, ih,
      List.map_cons (a := p), List.sum_cons, List.length_cons (a := q), Nat.succ_mul]
    omega

/-- Two pieces or more tell the separators apart that join them. -/
theorem separator_inj {sep' : List Char}
    (h : List.intercalate sep (p :: q :: ps) = List.intercalate sep' (p :: q :: ps)) :
    sep = sep' := by
  have hlen := congrArg List.length h
  rw [length_intercalate_cons, length_intercalate_cons] at hlen
  have hsame : sep.length = sep'.length :=
    Nat.eq_of_mul_eq_mul_left (Nat.succ_pos ps.length) (Nat.add_left_cancel hlen)
  rw [List.intercalate_cons_cons, List.intercalate_cons_cons, List.append_assoc,
    List.append_assoc] at h
  exact (List.append_inj (List.append_cancel_left h) hsame).1

end Joined

def HoldsMarker (template : String) : Prop := marker.toList <:+: template.toList

section Rendering

variable {template : String} {n m : Nat}

theorem renderPrompt_of_not_marker (h : ¬ HoldsMarker template) (agent : Number) :
    renderPrompt template agent = template := by
  rw [renderPrompt, pieces_of_not_marker h, List.intercalate_singleton, String.ofList_toList]

theorem not_mem_marker_of_mem_text (hn : n < exactBound) {c : Char}
    (hc : c ∈ (ofNat n).text.toList) : c ∉ marker.toList := by
  rw [text_ofNat hn, String.toList_ofList] at hc
  have hdigit := Nat.isDigit_of_mem_toDigits (by decide) (by decide) hc
  have hm : marker.toList = ['{', 'N', '}'] := by decide
  rw [hm]
  intro h
  simp only [List.mem_cons, List.not_mem_nil, or_false] at h
  rcases h with rfl | rfl | rfl <;> cases hdigit

/-- A rendered prompt holds no marker, also not across an inserted number. -/
theorem not_holdsMarker_renderPrompt (hn : n < exactBound) (template : String) :
    ¬ HoldsMarker (renderPrompt template (ofNat n)) := by
  intro h
  rw [HoldsMarker, renderPrompt, String.toList_ofList] at h
  have htext : (ofNat n).text.toList ≠ [] := by
    rw [text_ofNat hn, String.toList_ofList]
    exact Nat.toDigits_ne_nil
  obtain ⟨p, hp, hin⟩ := infix_of_intercalate (by decide) htext
    (fun c hc => not_mem_marker_of_mem_text hn hc) h
  exact not_marker_of_mem_pieces hp hin

theorem renderPrompt_renderPrompt (hn : n < exactBound) (template : String) (agent : Number) :
    renderPrompt (renderPrompt template (ofNat n)) agent = renderPrompt template (ofNat n) :=
  renderPrompt_of_not_marker (not_holdsMarker_renderPrompt hn template) agent

/-- A template with a marker is rendered differently for different agents. -/
theorem agent_of_renderPrompt (hn : n < exactBound) (hm : m < exactBound)
    (hmarker : HoldsMarker template)
    (h : renderPrompt template (ofNat n) = renderPrompt template (ofNat m)) : n = m := by
  have hjoined := congrArg String.toList h
  rw [renderPrompt, renderPrompt, String.toList_ofList, String.toList_ofList] at hjoined
  rcases hp : pieces template.toList with _ | ⟨p, _ | ⟨q, ps⟩⟩
  · exact absurd hp (pieces_ne_nil _)
  · have hwhole := intercalate_pieces template.toList
    rw [hp, List.intercalate_singleton] at hwhole
    exact absurd (hwhole ▸ hmarker) (not_marker_of_mem_pieces (hp ▸ List.mem_cons_self))
  · rw [hp] at hjoined
    have htext := separator_inj hjoined
    rw [text_ofNat hn, text_ofNat hm, String.toList_ofList, String.toList_ofList] at htext
    rw [← Nat.ofDigitChars_ten_toDigits (n := n), htext, Nat.ofDigitChars_ten_toDigits]

end Rendering

end AgentPrompts
