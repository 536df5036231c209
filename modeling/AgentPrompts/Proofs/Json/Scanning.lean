import AgentPrompts.Json.Printer
import AgentPrompts.Proofs.Json.Literal
import AgentPrompts.Proofs.Members.Listed
import AgentPrompts.Proofs.Number.Agents
import AgentPrompts.Proofs.Number.Reading

/-! # Printed documents as tokens

A printed document is scanned into its tokens, on one line as well as indented. A bare token
is still open at its last character, so each token is followed up to the punctuation that
closes it.
-/

namespace AgentPrompts.Json

/-- Documents that a printed text tells apart: natural numbers that are exact, and records whose
members have distinct names and stand in the order in which they are listed. -/
inductive IsPlain : Json → Prop where
  | null : IsPlain .null
  | bool (b : Bool) : IsPlain (.bool b)
  | number {n : ℕ} (h : n < Number.exactBound) : IsPlain (.number (.ofNat n))
  | text (s : String) : IsPlain (.text s)
  | list {vs : List Json} (h : ∀ v ∈ vs, IsPlain v) : IsPlain (.list vs)
  | record {ms : Members Json} (hnames : ms.Distinct)
      (hlisted : ∀ m ∈ ms, Members.index? m.1 = none) (h : ∀ m ∈ ms, IsPlain m.2) :
      IsPlain (.record ms)

theorem IsPlain.of_names (names : List String) (hms : ms.map Prod.fst = names)
    (hdistinct : names.Nodup) (hindex : ∀ name ∈ names, Members.index? name = none)
    (h : ∀ m ∈ ms, IsPlain m.2) : IsPlain (.record ms) := by
  subst hms
  exact .record hdistinct (fun m hm => hindex _ (List.mem_map_of_mem hm)) h

namespace Token

mutual

def ofJson : Json → List Token
  | .list [] => [listStart, listEnd]
  | .list (v :: vs) => listStart :: (ofJson v ++ (ofItems vs ++ [listEnd]))
  | .record [] => [recordStart, recordEnd]
  | .record ((name, v) :: ms) =>
    recordStart :: scalar (.text name) :: colon :: (ofJson v ++ (ofMembers ms ++ [recordEnd]))
  | v => [scalar v]

def ofItems : List Json → List Token
  | [] => []
  | v :: vs => comma :: (ofJson v ++ ofItems vs)

def ofMembers : List (String × Json) → List Token
  | [] => []
  | (name, v) :: ms => comma :: scalar (.text name) :: colon :: (ofJson v ++ ofMembers ms)

end

def scan (s : Scan) (cs : List Char) : Option Scan := cs.foldlM Scan.step? s

/-- A scan after its last token: punctuation finds it closed. -/
structure Ends (s : Scan) (ts : List Token) : Prop where
  close : s.close? = some ⟨.nothing, ts⟩
  step : ∀ c, isBare c = false → s.step? c = Scan.begin? ⟨.nothing, ts⟩ c

/-- A text that is scanned into tokens, where no token is open before it. -/
def Scans (cs : List Char) (ts : List Token) : Prop :=
  ∀ before, ∃ s, scan ⟨.nothing, before⟩ cs = some s ∧ Ends s (ts.reverse ++ before)

/-- The same behind a token that may still be open. -/
def ScansOn (cs : List Char) (ts : List Token) : Prop :=
  ∀ s before, Ends s before → ∃ s', scan s cs = some s' ∧ Ends s' (ts.reverse ++ before)

/-- A text that closes a token and leaves none open. -/
def Separates (cs : List Char) (ts : List Token) : Prop :=
  ∀ s before, Ends s before → scan s cs = some ⟨.nothing, ts.reverse ++ before⟩

section Scans

variable {cs ds : List Char} {ts us : List Token}

theorem scan_append (s : Scan) (cs ds : List Char) :
    scan s (cs ++ ds) = (scan s cs).bind fun s' => scan s' ds := by
  rw [scan, List.foldlM_append]
  rfl

theorem ends_nothing (ts : List Token) : Ends ⟨.nothing, ts⟩ ts := ⟨rfl, fun _ _ => rfl⟩

theorem Scans.of_separates (h : Separates cs ts) : Scans cs ts := fun before =>
  ⟨_, h _ before (ends_nothing before), ends_nothing _⟩

theorem ScansOn.nil : ScansOn [] [] := fun s _ hs => ⟨s, rfl, hs⟩

theorem ScansOn.append (h : ScansOn cs ts) (h' : ScansOn ds us) : ScansOn (cs ++ ds) (ts ++ us) := by
  intro s before hs
  obtain ⟨s₁, hscan, hs₁⟩ := h s before hs
  obtain ⟨s₂, hscan', hs₂⟩ := h' s₁ _ hs₁
  refine ⟨s₂, ?_, ?_⟩
  · rw [scan_append, hscan]
    exact hscan'
  · rw [List.reverse_append, List.append_assoc]
    exact hs₂

theorem Separates.append (h : Separates cs ts) (h' : Separates ds us) :
    Separates (cs ++ ds) (ts ++ us) := by
  intro s before hs
  rw [scan_append, h s before hs, List.reverse_append, List.append_assoc]
  exact h' _ _ (ends_nothing _)

theorem Separates.append_scans (h : Separates cs ts) (h' : Scans ds us) :
    ScansOn (cs ++ ds) (ts ++ us) := by
  intro s before hs
  obtain ⟨s', hscan, hs'⟩ := h' (ts.reverse ++ before)
  refine ⟨s', ?_, ?_⟩
  · rw [scan_append, h s before hs]
    exact hscan
  · rw [List.reverse_append, List.append_assoc]
    exact hs'

theorem ScansOn.append_separates (h : ScansOn cs ts) (h' : Separates ds us) :
    Separates (cs ++ ds) (ts ++ us) := by
  intro s before hs
  obtain ⟨s', hscan, hs'⟩ := h s before hs
  rw [scan_append, hscan, List.reverse_append, List.append_assoc]
  exact h' s' _ hs'

theorem Scans.append (h : Scans cs ts) (h' : ScansOn ds us) : Scans (cs ++ ds) (ts ++ us) := by
  intro before
  obtain ⟨s, hscan, hs⟩ := h before
  obtain ⟨s', hscan', hs'⟩ := h' s _ hs
  refine ⟨s', ?_, ?_⟩
  · rw [scan_append, hscan]
    exact hscan'
  · rw [List.reverse_append, List.append_assoc]
    exact hs'

end Scans

section Punctuation

variable {c : Char} {t : Token}

structure IsMark (c : Char) (t : Token) : Prop where
  notBare : isBare c = false
  begins : ∀ before, Scan.begin? ⟨.nothing, before⟩ c = some ⟨.nothing, t :: before⟩

theorem isMark_comma : IsMark ',' .comma := ⟨by decide, fun _ => rfl⟩

theorem isMark_colon : IsMark ':' .colon := ⟨by decide, fun _ => rfl⟩

theorem isMark_listStart : IsMark '[' .listStart := ⟨by decide, fun _ => rfl⟩

theorem isMark_listEnd : IsMark ']' .listEnd := ⟨by decide, fun _ => rfl⟩

theorem isMark_recordStart : IsMark '\x7b' .recordStart := ⟨by decide, fun _ => rfl⟩

theorem isMark_recordEnd : IsMark '\x7d' .recordEnd := ⟨by decide, fun _ => rfl⟩

theorem separates_mark (h : IsMark c t) : Separates [c] [t] := by
  intro s before hs
  have hstep : s.step? c = some ⟨.nothing, t :: before⟩ := by
    rw [hs.step c h.notBare, h.begins]
  simp [scan, hstep]

theorem scan_spaces (n : ℕ) (ts : List Token) :
    scan ⟨.nothing, ts⟩ (List.replicate n ' ') = some ⟨.nothing, ts⟩ := by
  induction n with
  | zero => rfl
  | succ n ih =>
    rw [List.replicate_succ, scan, List.foldlM_cons]
    exact ih

theorem separates_break (n : ℕ) : Separates ('\n' :: List.replicate n ' ') [] := by
  intro s before hs
  have hstep : s.step? '\n' = some ⟨.nothing, before⟩ := by
    rw [hs.step '\n' (by decide)]
    rfl
  rw [scan, List.foldlM_cons, hstep]
  exact scan_spaces n before

theorem separates_lineBreak_mark (indent : Option ℕ) (h : IsMark c t) :
    Separates (lineBreak indent ++ [c]) [t] := by
  cases indent with
  | none => exact separates_mark h
  | some n => exact (separates_break n).append (separates_mark h)

theorem separates_mark_lineBreak (indent : Option ℕ) (h : IsMark c t) :
    Separates (c :: lineBreak indent) [t] := by
  cases indent with
  | none => exact separates_mark h
  | some n => exact (separates_mark h).append (separates_break n)

theorem separates_colon (indent : Option ℕ) : Separates (Json.colon indent) [.colon] := by
  cases indent with
  | none => exact separates_mark isMark_colon
  | some n =>
    have hspace : Separates [' '] [] := by
      intro s before hs
      have hstep : s.step? ' ' = some ⟨.nothing, before⟩ := by
        rw [hs.step ' ' (by decide)]
        rfl
      simp [scan, hstep]
    exact (separates_mark isMark_colon).append hspace

end Punctuation

section Bare

variable {cs : List Char} {v : Json}

theorem scans_bare (hbare : ∀ c ∈ cs, isBare c = true) (hne : cs ≠ []) (hv : bare? cs = some v) :
    Scans cs [.scalar v] := by
  intro before
  have hscan (ds seen : List Char) (hds : ∀ c ∈ ds, isBare c = true) :
      scan ⟨.bare seen, before⟩ ds = some ⟨.bare (ds.reverse ++ seen), before⟩ := by
    induction ds generalizing seen with
    | nil => rfl
    | cons c ds ih =>
      have hstep : Scan.step? ⟨.bare seen, before⟩ c = some ⟨.bare (c :: seen), before⟩ :=
        if_pos (hds c List.mem_cons_self)
      rw [scan, List.foldlM_cons, hstep, List.reverse_cons, List.append_assoc]
      exact ih (c :: seen) fun d hd => hds d (List.mem_cons_of_mem _ hd)
  have hclose : Scan.close? ⟨.bare cs.reverse, before⟩ =
      some ⟨.nothing, .scalar v :: before⟩ := by
    simp [Scan.close?, hv, Scan.emit]
  refine ⟨⟨.bare cs.reverse, before⟩, ?_, hclose, ?_⟩
  · obtain ⟨c, ds, rfl⟩ := List.exists_cons_of_ne_nil hne
    obtain ⟨hc, hds⟩ := List.forall_mem_cons.mp hbare
    have hspace : isSpace c = false := by
      by_contra hspace
      simp only [isSpace, Bool.not_eq_false, Bool.or_eq_true, decide_eq_true_eq] at hspace
      rcases hspace with ((rfl | rfl) | rfl) | rfl <;> cases hc
    have hbegin : Scan.step? ⟨.nothing, before⟩ c = some ⟨.bare [c], before⟩ := by
      simp [Scan.step?, Scan.begin?, hspace, hc]
    rw [scan, List.foldlM_cons, hbegin, List.reverse_cons]
    exact hscan ds [c] hds
  · intro c hc
    simp [Scan.step?, hc, hclose]

theorem isBare_of_isDigit {c : Char} (h : c.isDigit = true) : isBare c = true := by
  simp [isBare, Char.isAlphanum, h]

theorem head?_toDigits {n : ℕ} (h : n ≠ 0) : (Nat.toDigits 10 n).head? ≠ some '0' := by
  induction n using Nat.strong_induction_on with
  | _ n ih =>
    rw [Nat.toDigits_eq_if (by decide)]
    split
    next hlt =>
      have hdigit : ∀ m < 10, m ≠ 0 → [m.digitChar].head? ≠ some '0' := by decide
      exact hdigit n hlt h
    next hge =>
      have hfirst := ih (n / 10) (by omega) (by omega)
      obtain ⟨c, cs, hcs⟩ := List.exists_cons_of_ne_nil (Nat.toDigits_ne_nil (n := n / 10) (b := 10))
      rw [hcs] at hfirst ⊢
      exact hfirst

theorem decimal?_toDigits {n : ℕ} (h : n < Number.exactBound) :
    ∃ d, Numeral.decimal? false (Nat.toDigits 10 n) = some d ∧ d.toNumber = .ofNat n := by
  have htext : Number.magnitudeText n = Nat.toDigits 10 n := by
    simp [Number.magnitudeText, h]
  obtain ⟨d, hd, hsign, hreads⟩ :=
    Number.readsAs_magnitudeText (Nat.cast_nonneg n) (Number.isBinary64_ofNat h)
  obtain ⟨d', hread, hnumber⟩ := (hreads false).exists_toNumber hsign
  exact ⟨d', htext ▸ hread, hnumber.trans hd⟩

theorem number?_toDigits {n : ℕ} (h : n < Number.exactBound) :
    number? (Nat.toDigits 10 n) = some (.ofNat n) := by
  obtain ⟨d, hd, hnumber⟩ := decimal?_toDigits h
  have hspan : (Nat.toDigits 10 n).span Char.isDigit = (Nat.toDigits 10 n, []) := by
    simpa using Numeral.span_digits (fun c hc => Numeral.isDigit_toDigits hc) Decimal.stops_nil
  have hsign : ∀ ds, Nat.toDigits 10 n ≠ '-' :: ds := by
    intro ds hds
    have hminus : '-' ∈ Nat.toDigits 10 n := hds ▸ List.mem_cons_self
    exact absurd (Numeral.isDigit_toDigits hminus) (by decide)
  have hread : (Numeral.decimal? false (Nat.toDigits 10 n)).map Decimal.toNumber =
      some (.ofNat n) := by
    rw [hd, Option.map_some, hnumber]
  rw [number?, hspan]
  · dsimp only
    rw [hread]
    refine if_pos ?_
    rw [Bool.and_true]
    split
    next hnil => exact absurd hnil Nat.toDigits_ne_nil
    next ds hds =>
      -- A zero in front is the only digit, as it is for zero only.
      by_cases hzero : n = 0
      · subst hzero
        rw [Nat.toDigits_zero] at hds
        rw [← (List.cons.inj hds).2, List.isEmpty_nil]
      · exact absurd (congrArg List.head? hds) (head?_toDigits hzero)
    next => rfl
  · exact hsign

theorem scans_number {n : ℕ} (h : n < Number.exactBound) :
    Scans (numberText (.ofNat n)) [.scalar (.number (.ofNat n))] := by
  have htext : numberText (.ofNat n) = Nat.toDigits 10 n := by
    have htext := Number.text_ofNat h
    rw [Number.ofNat] at htext
    rw [Number.ofNat, numberText, htext, String.toList_ofList]
  have hdigit {c : Char} (hc : c ∈ Nat.toDigits 10 n) : c.isDigit = true :=
    Numeral.isDigit_toDigits hc
  have hword {c : Char} {cs : List Char} (hc : c.isDigit = false) :
      Nat.toDigits 10 n ≠ c :: cs := by
    intro hcs
    rw [hdigit (hcs ▸ List.mem_cons_self)] at hc
    cases hc
  rw [htext]
  refine scans_bare (fun c hc => isBare_of_isDigit (hdigit hc)) Nat.toDigits_ne_nil ?_
  rw [bare?, if_neg (hword (by decide)), if_neg (hword (by decide)), if_neg (hword (by decide)),
    number?_toDigits h]
  rfl

end Bare

theorem scan_of_read? {s s' : Scan} {cs rest : List Char} (h : read? s cs = some (s', rest)) :
    scan s cs = scan s' rest := by
  induction cs generalizing s with
  | nil => cases h
  | cons c cs ih =>
    rw [read?] at h
    split at h
    next => cases h
    next s₁ hstep =>
      rw [scan, List.foldlM_cons, hstep]
      split at h
      next =>
        obtain ⟨rfl, rfl⟩ := Prod.mk.inj (Option.some_inj.mp h)
        rfl
      next => exact ih h

theorem scans_quoted (s : String) : Scans (Quoted.encode s.toList) [.scalar (.text s)] := by
  intro before
  have hread := read?_encode s.toList before []
  rw [List.append_nil, String.ofList_toList] at hread
  exact ⟨_, scan_of_read? hread, ends_nothing _⟩

section Documents

theorem scansOn_items {vs : List Json} (indent : Option ℕ)
    (h : ∀ v ∈ vs, ∀ indent, Scans (render indent v) (ofJson v)) :
    ScansOn (renderItems indent vs) (ofItems vs) := by
  induction vs with
  | nil =>
    rw [renderItems, ofItems]
    exact .nil
  | cons v vs ih =>
    obtain ⟨hv, hvs⟩ := List.forall_mem_cons.mp h
    have hitem := (separates_mark_lineBreak indent isMark_comma).append_scans (hv indent)
    have hitems := hitem.append (ih hvs)
    rw [renderItems, ofItems]
    simpa using hitems

theorem scans_member {cs : List Char} {ts : List Token} (name : String) (indent : Option ℕ)
    (h : Scans cs ts) : Scans (Quoted.encode name.toList ++ (Json.colon indent ++ cs))
      (scalar (.text name) :: colon :: ts) :=
  (scans_quoted name).append ((separates_colon indent).append_scans h)

theorem scansOn_members {ms : Members Json} (indent : Option ℕ)
    (h : ∀ m ∈ ms, ∀ indent, Scans (render indent m.2) (ofJson m.2)) :
    ScansOn (renderMembers indent ms) (ofMembers ms) := by
  induction ms with
  | nil =>
    rw [renderMembers, ofMembers]
    exact .nil
  | cons m ms ih =>
    obtain ⟨hm, hms⟩ := List.forall_mem_cons.mp h
    have hmember := (separates_mark_lineBreak indent isMark_comma).append_scans
      (scans_member m.1 indent (hm indent))
    have hmembers := hmember.append (ih hms)
    rw [renderMembers, ofMembers]
    simpa using hmembers

theorem scans_container {first last : Char} {t t' : Token} {cs ds : List Char}
    {ts us : List Token} (indent : Option ℕ) (hfirst : IsMark first t) (hlast : IsMark last t')
    (h : Scans cs ts) (h' : ScansOn ds us) :
    Scans (first :: (lineBreak (deeper indent) ++ cs ++ ds ++ lineBreak indent ++ [last]))
      (t :: (ts ++ (us ++ [t']))) := by
  have hopen := (separates_mark_lineBreak (deeper indent) hfirst).append_scans h
  have hclosed := (hopen.append h').append_separates (separates_lineBreak_mark indent hlast)
  simpa using Scans.of_separates hclosed

/-- A plain document is scanned into its tokens. -/
theorem scans_render {v : Json} (h : v.IsPlain) (indent : Option ℕ) :
    Scans (render indent v) (ofJson v) := by
  induction h generalizing indent with
  | null => exact scans_bare (by simp [render]; decide) (List.cons_ne_nil _ _) rfl
  | bool b => cases b <;> exact scans_bare (by simp [render]; decide) (List.cons_ne_nil _ _) rfl
  | number h => exact scans_number h
  | text s => exact scans_quoted s
  | @list vs _ ih =>
    cases vs with
    | nil =>
      have hempty := (separates_mark isMark_listStart).append (separates_mark isMark_listEnd)
      exact .of_separates hempty
    | cons v vs =>
      obtain ⟨hv, hvs⟩ := List.forall_mem_cons.mp ih
      have hlist := scans_container indent isMark_listStart isMark_listEnd (hv (deeper indent))
        (scansOn_items (deeper indent) hvs)
      rwa [render, ofJson]
  | @record ms _ _ _ ih =>
    cases ms with
    | nil =>
      have hempty := (separates_mark isMark_recordStart).append (separates_mark isMark_recordEnd)
      exact .of_separates hempty
    | cons m ms =>
      obtain ⟨hm, hms⟩ := List.forall_mem_cons.mp ih
      have hrecord := scans_container indent isMark_recordStart isMark_recordEnd
        (scans_member m.1 indent (hm (deeper indent))) (scansOn_members (deeper indent) hms)
      rw [render, ofJson]
      simpa using hrecord

theorem ofChars?_render {v : Json} (h : v.IsPlain) (indent : Option ℕ) :
    ofChars? (render indent v) = some (ofJson v) := by
  obtain ⟨s, hscan, hs⟩ := scans_render h indent []
  rw [scan] at hscan
  rw [ofChars?, hscan]
  simp [hs.close]

end Documents

end Token

end AgentPrompts.Json
