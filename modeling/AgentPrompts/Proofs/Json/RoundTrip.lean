import AgentPrompts.Json.Reader
import AgentPrompts.Proofs.Json.Scanning

/-! # Documents read back

The tokens of a document are read as the document, in any container that is still open. So a
plain document is read back from its text, and the text holds nothing else. Without indentation
the text stands on one line.
-/

namespace AgentPrompts.Json

open Token

section Reading

variable {v : Json} {stack : List Frame} {ts : List Token}

theorem readValue?_listStart (v : Json) (stack : List Frame) (ts : List Token) :
    readValue? stack (.listStart :: (Token.ofJson v ++ ts)) =
      readValue? (.list [] :: stack) (Token.ofJson v ++ ts) := by
  cases v with
  | list vs => cases vs <;> simp [Token.ofJson, readValue?]
  | record ms => cases ms <;> simp [Token.ofJson, readValue?]
  | _ => simp [Token.ofJson, readValue?]

/-- Documents that are read as they are written, in any open container. -/
def ReadsBack (v : Json) : Prop :=
  ∀ stack ts, readValue? stack (Token.ofJson v ++ ts) = readAfter? v stack ts

theorem readAfter?_items {vs : List Json} (h : ∀ v ∈ vs, ReadsBack v) (seen : List Json) :
    readAfter? v (.list seen :: stack) (Token.ofItems vs ++ .listEnd :: ts) =
      readAfter? (.list (seen.reverse ++ v :: vs)) stack ts := by
  induction vs generalizing v seen with
  | nil => simp [Token.ofItems, readAfter?]
  | cons w vs ih =>
    obtain ⟨hw, hvs⟩ := List.forall_mem_cons.mp h
    rw [Token.ofItems, List.cons_append, readAfter?, List.append_assoc, hw, ih hvs,
      List.reverse_cons, List.append_assoc, List.singleton_append]

theorem readAfter?_members {ms : Members Json} (h : ∀ m ∈ ms, ReadsBack m.2) (name : String)
    (seen : Members Json) :
    readAfter? v (.record seen name :: stack) (Token.ofMembers ms ++ .recordEnd :: ts) =
      readAfter? (.record (Members.ofList (seen.reverse ++ (name, v) :: ms))) stack ts := by
  induction ms generalizing v name seen with
  | nil => simp [Token.ofMembers, readAfter?]
  | cons m ms ih =>
    obtain ⟨hm, hms⟩ := List.forall_mem_cons.mp h
    simp only [Token.ofMembers, List.cons_append, readAfter?, List.append_assoc]
    rw [hm, ih hms, List.reverse_cons, List.append_assoc, List.singleton_append]

end Reading

theorem readsBack {v : Json} (h : v.IsPlain) : ReadsBack v := by
  induction h with
  | null => exact fun _ _ => by simp [Token.ofJson, readValue?]
  | bool b => exact fun _ _ => by simp [Token.ofJson, readValue?]
  | number h => exact fun _ _ => by simp [Token.ofJson, readValue?]
  | text s => exact fun _ _ => by simp [Token.ofJson, readValue?]
  | @list vs _ ih =>
    intro stack ts
    cases vs with
    | nil => simp [Token.ofJson, readValue?]
    | cons v vs =>
      obtain ⟨hv, hvs⟩ := List.forall_mem_cons.mp ih
      have hitems : readAfter? v (.list [] :: stack) (Token.ofItems vs ++ .listEnd :: ts) =
          readAfter? (.list (v :: vs)) stack ts := readAfter?_items hvs []
      simp only [Token.ofJson, List.cons_append, List.append_assoc, List.nil_append]
      rw [readValue?_listStart, hv]
      exact hitems
  | @record ms hnames hlisted _ ih =>
    intro stack ts
    cases ms with
    | nil => simp [Token.ofJson, readValue?]
    | cons m ms =>
      obtain ⟨hm, hms⟩ := List.forall_mem_cons.mp ih
      have hmembers : readAfter? m.2 (.record [] m.1 :: stack)
          (Token.ofMembers ms ++ .recordEnd :: ts) =
          readAfter? (.record (Members.ofList ([].reverse ++ m :: ms))) stack ts :=
        readAfter?_members hms m.1 []
      rw [List.reverse_nil, List.nil_append, Members.ofList_eq_self hnames hlisted] at hmembers
      simp only [Token.ofJson, List.cons_append, List.append_assoc, List.nil_append, readValue?]
      rw [hm]
      exact hmembers

/-- A plain document is read back from its text, indented or not. -/
theorem parse?_render {v : Json} (h : v.IsPlain) (indent : Option ℕ) :
    parse? (String.ofList (render indent v)) = some v := by
  have hread := readsBack h [] []
  rw [List.append_nil] at hread
  rw [parse?, String.toList_ofList, Token.ofChars?_render h, Option.bind_some, hread, readAfter?]

theorem parse?_pretty {v : Json} (h : v.IsPlain) : parse? v.pretty = some v := parse?_render h _

theorem parse?_compact {v : Json} (h : v.IsPlain) : parse? v.compact = some v := parse?_render h _

section OneLine

theorem ge_of_mem_renderItems {vs : List Json} {c : Char}
    (h : ∀ v ∈ vs, ∀ c ∈ render none v, 0x20 ≤ c.toNat) (hc : c ∈ renderItems none vs) :
    0x20 ≤ c.toNat := by
  induction vs with
  | nil => cases hc
  | cons v vs ih =>
    obtain ⟨hv, hvs⟩ := List.forall_mem_cons.mp h
    simp only [renderItems, lineBreak, List.nil_append, List.mem_cons, List.mem_append] at hc
    rcases hc with rfl | hc | hc
    · decide
    · exact hv c hc
    · exact ih hvs hc

theorem ge_of_mem_renderMembers {ms : Members Json} {c : Char}
    (h : ∀ m ∈ ms, ∀ c ∈ render none m.2, 0x20 ≤ c.toNat) (hc : c ∈ renderMembers none ms) :
    0x20 ≤ c.toNat := by
  induction ms with
  | nil => cases hc
  | cons m ms ih =>
    obtain ⟨hm, hms⟩ := List.forall_mem_cons.mp h
    simp only [renderMembers, lineBreak, colon, List.nil_append, List.mem_cons, List.mem_append,
      List.not_mem_nil, or_false] at hc
    rcases hc with rfl | ((hc | rfl) | hc) | hc
    · decide
    · exact ge_of_mem_encode hc
    · decide
    · exact hm c hc
    · exact ih hms hc

theorem ge_of_mem_render {v : Json} (h : v.IsPlain) : ∀ c ∈ render none v, 0x20 ≤ c.toNat := by
  induction h with
  | null => simp [render]
  | bool b => cases b <;> simp [render]
  | number h =>
    intro c hc
    rw [render, Number.ofNat, numberText, ← Number.ofNat, Number.text_ofNat h,
      String.toList_ofList] at hc
    have hdigit := Numeral.isDigit_toDigits hc
    rw [Char.isDigit, Bool.and_eq_true, decide_eq_true_iff] at hdigit
    exact le_trans (by decide) (UInt32.le_iff_toNat_le.mp hdigit.1)
  | text s => exact fun c hc => ge_of_mem_encode hc
  | @list vs _ ih =>
    intro c hc
    cases vs with
    | nil =>
      revert c
      simp [render]
    | cons v vs =>
      obtain ⟨hv, hvs⟩ := List.forall_mem_cons.mp ih
      simp only [render, lineBreak, deeper, Option.map_none, List.nil_append, List.append_nil,
        List.mem_cons, List.mem_append, List.not_mem_nil, or_false] at hc
      rcases hc with rfl | (hc | hc) | rfl
      · decide
      · exact hv c hc
      · exact ge_of_mem_renderItems hvs hc
      · decide
  | @record ms _ _ _ ih =>
    intro c hc
    cases ms with
    | nil =>
      revert c
      simp [render]
    | cons m ms =>
      obtain ⟨hm, hms⟩ := List.forall_mem_cons.mp ih
      simp only [render, lineBreak, colon, deeper, Option.map_none, List.nil_append,
        List.append_nil, List.mem_cons, List.mem_append, List.not_mem_nil, or_false] at hc
      rcases hc with rfl | (((hc | rfl) | hc) | hc) | rfl
      · decide
      · exact ge_of_mem_encode hc
      · decide
      · exact hm c hc
      · exact ge_of_mem_renderMembers hms hc
      · decide

theorem newline_notMem_compact {v : Json} (h : v.IsPlain) : '\n' ∉ v.compact.toList := by
  intro hc
  rw [compact, String.toList_ofList] at hc
  exact absurd (ge_of_mem_render h _ hc) (by decide)

end OneLine

end AgentPrompts.Json
