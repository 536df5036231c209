import AgentPrompts.Proofs.Prompt.Rendering
import AgentPrompts.Proofs.Text.Replacing

/-! # Prompts as scanned templates

A prompt is its template scanned once from left to right, with each marker replaced by the
digits of the agent. Agents have the same prompt only when the template holds no marker,
and then the template is the prompt.
-/

namespace AgentPrompts

open Number

theorem intercalate_pieces_eq_replaceAll (joint cs : List Char) :
    List.intercalate joint (pieces cs) = replaceAll marker.toList joint cs := by
  have hm : marker.toList = ['{', 'N', '}'] := by decide
  fun_induction pieces cs with
  | case1 => rfl
  | case2 cs ih =>
    obtain ⟨p, ps, hp⟩ := List.exists_cons_of_ne_nil (pieces_ne_nil cs)
    have hscan : replaceAll marker.toList joint (marker.toList ++ cs) =
        joint ++ replaceAll marker.toList joint cs := replaceAll_occurrence (by decide) cs
    rw [hm, List.cons_append, List.cons_append, List.singleton_append, ← hm] at hscan
    rw [hp] at ih ⊢
    rw [hscan, ← ih, List.intercalate_cons_cons, List.nil_append]
  | case3 c cs hc h ih => exact absurd h (pieces_ne_nil cs)
  | case4 c cs hc p ps h ih =>
    have hbegin : ¬ marker.toList <+: c :: cs := by
      rw [hm]
      rintro ⟨rest, hrest⟩
      obtain ⟨rfl, rfl⟩ := List.cons.inj hrest
      exact hc rest rfl rfl
    rw [replaceAll_copy hbegin, ← ih, h]
    cases ps with
    | nil => rw [List.intercalate_singleton, List.intercalate_singleton]
    | cons q ps => rw [List.intercalate_cons_cons, List.intercalate_cons_cons]; rfl

section Scanning

variable {n : Nat}

theorem toList_renderPrompt (hn : n < exactBound) (template : String) :
    (renderPrompt template (ofNat n)).toList =
      replaceAll marker.toList (Nat.toDigits 10 n) template.toList := by
  rw [renderPrompt, String.toList_ofList, text_ofNat hn, String.toList_ofList,
    intercalate_pieces_eq_replaceAll]

theorem renderPrompt_append (hn : n < exactBound) {front back : String}
    (h : ¬ Straddles marker.toList front.toList back.toList) :
    renderPrompt (front ++ back) (ofNat n) =
      renderPrompt front (ofNat n) ++ renderPrompt back (ofNat n) := by
  rw [← String.toList_inj, String.toList_append, toList_renderPrompt hn, toList_renderPrompt hn,
    toList_renderPrompt hn, String.toList_append, replaceAll_append (by decide) h]

end Scanning

structure Scanned (template : String) (n : Nat) : Prop where
  scan : (renderPrompt template (ofNat n)).toList =
    replaceAll marker.toList (Nat.toDigits 10 n) template.toList
  noMarker : ¬ HoldsMarker (renderPrompt template (ofNat n))
  again : ∀ agent,
    renderPrompt (renderPrompt template (ofNat n)) agent = renderPrompt template (ofNat n)
  parts : ∀ front back, template = front ++ back →
    ¬ Straddles marker.toList front.toList back.toList →
    renderPrompt template (ofNat n) =
      renderPrompt front (ofNat n) ++ renderPrompt back (ofNat n)

theorem scanned_renderPrompt {n : Nat} (hn : n < exactBound) (template : String) :
    Scanned template n where
  scan := toList_renderPrompt hn template
  noMarker := not_holdsMarker_renderPrompt hn template
  again := renderPrompt_renderPrompt hn template
  parts := by
    rintro front back rfl h
    exact renderPrompt_append hn h

/-- Braces around a marker and behind it do not make a marker with the digits. -/
theorem scanned_renderPrompt_nested :
    let front := "\x7b\x7bN\x7d"
    let back := "N\x7d\x7bN"
    (12 < exactBound ∧ Scanned (front ++ back) 12 ∧
      renderPrompt (front ++ back) (ofNat 12) = "\x7b12N\x7d\x7bN") ∧
    ¬ Straddles marker.toList front.toList back.toList ∧
      renderPrompt (front ++ back) (ofNat 12) =
        renderPrompt front (ofNat 12) ++ renderPrompt back (ofNat 12) := by
  intro front back
  have hscanned := scanned_renderPrompt (n := 12) (by decide) (front ++ back)
  have hcut : ¬ Straddles marker.toList front.toList back.toList := by decide
  exact ⟨⟨by decide, hscanned, by decide +kernel⟩, hcut, hscanned.parts front back rfl hcut⟩

/-- With a marker in the template different agents have different prompts; without one the
template is the prompt of every agent. -/
theorem agents_told_apart (template : String) :
    (HoldsMarker template → ∀ n m, n < exactBound → m < exactBound →
      (renderPrompt template (ofNat n) = renderPrompt template (ofNat m) ↔ n = m)) ∧
    (¬ HoldsMarker template ↔ ∀ agent, renderPrompt template agent = template) := by
  refine ⟨fun hmarker n m hn hm => ⟨agent_of_renderPrompt hn hm hmarker, ?_⟩,
    renderPrompt_of_not_marker, fun h => ?_⟩
  · rintro rfl
    rfl
  · rw [← h (ofNat 1)]
    exact not_holdsMarker_renderPrompt (by decide) template

/-- Digits beside the markers do not make up for the digits of agents. -/
theorem agents_told_apart_digits :
    let marked := "1" ++ marker ++ marker ++ "1"
    let unmarked := "\x7bN1\x7d"
    (HoldsMarker marked ∧ 1 < exactBound ∧ 11 < exactBound ∧
      (renderPrompt marked (ofNat 1) = renderPrompt marked (ofNat 11) ↔ 1 = 11)) ∧
    ¬ HoldsMarker unmarked ∧ ∀ agent, renderPrompt unmarked agent = unmarked := by
  intro marked unmarked
  have hmarked : HoldsMarker marked := by unfold HoldsMarker; decide
  have hunmarked : ¬ HoldsMarker unmarked := by unfold HoldsMarker; decide
  have happart := (agents_told_apart marked).1 hmarked 1 11 (by decide) (by decide)
  exact ⟨⟨hmarked, by decide, by decide, happart⟩, hunmarked,
    (agents_told_apart unmarked).2.mp hunmarked⟩

end AgentPrompts
