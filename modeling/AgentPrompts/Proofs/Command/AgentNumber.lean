import AgentPrompts.Proofs.Command.Report
import AgentPrompts.Proofs.Number.Significant
import AgentPrompts.Proofs.Prompt.Scanned
import AgentPrompts.Proofs.Settings.Count

/-! # Agents given by digits

Digits on the command line give the binary64 number nearest to what they state. It is written
with the same digits if they state an exact number, and then the prompt has them in place of
each marker. Exact numbers are told apart.
-/

namespace AgentPrompts

open Number

/-- Digits are refused, or they give a number that is written with them. -/
def Unaltered (flag d : String) : Prop :=
  parseCount flag (.text d) = .error (.configuration (.notNatural flag d)) ∨
    ∃ x, parseCount flag (.text d) = .ok x ∧ x.text.toList = plainDigits d

/-- A prompt that is shown for digits has them in place of each marker of its template. -/
def ShowsDigits (d : String) : Prop :=
  ∀ (o : PromptOptions) (h : Host) (r : PromptReport), o.id = .text d →
    (showPrompt o h).result = .ok r → ∃ settings template, o.settings h = .ok settings ∧
      loadTemplate h.disk settings.template = .ok template ∧
      r.prompt.toList = replaceAll marker.toList (plainDigits d) template.toList

section Numerals

variable {flag d d' : String} {x : Number}

theorem parseCount_numeral (flag : String) (h : IsNumeral d) : parseCount flag (.text d) =
    if overflow ≤ numeralValue d then .error (.configuration (.notNatural flag d))
    else .ok (nearest (numeralValue d)) := by
  have htrim : trimBlanks d.toList = d.toList :=
    trimBlanks_of_isWritten fun c hc => Or.inl (h.isDigit c hc)
  have hblank : d.toList.isEmpty = false := List.isEmpty_eq_false_iff.mpr h.nonempty
  simp only [parseCount, htrim, hblank, Bool.false_eq_true, if_false, ofText_numeral h]
  rcases nearest_cases (numeralValue d) with ⟨hover, hnear⟩ | ⟨hlt, m, hnear, -⟩
  · rw [hnear, if_pos hover]
    rfl
  · rw [hnear, if_neg hlt.not_ge, nat?_ofNat]
    rfl

theorem exists_of_parseCount_numeral (h : IsNumeral d) (hx : parseCount flag (.text d) = .ok x) :
    numeralValue d < overflow ∧ nearest (numeralValue d) = x := by
  rw [parseCount_numeral flag h] at hx
  split at hx
  next => cases hx
  next hlt => exact ⟨not_le.mp hlt, Except.ok.inj hx⟩

theorem unaltered_iff (flag : String) (h : IsNumeral d) :
    Unaltered flag d ↔ overflow ≤ numeralValue d ∨ IsExact (numeralValue d) := by
  rw [Unaltered, parseCount_numeral flag h, plainDigits_eq h]
  rcases nearest_cases (numeralValue d) with ⟨hover, -⟩ | ⟨hlt, m, hnear, -⟩
  · rw [if_pos hover]
    exact iff_of_true (Or.inl rfl) (Or.inl hover)
  · rw [if_neg hlt.not_ge, hnear, or_iff_right hlt.not_ge, ← text_nearest_iff hnear]
    simp

theorem text_of_parseCount (h : IsNumeral d) (hexact : IsExact (numeralValue d))
    (hx : parseCount flag (.text d) = .ok x) :
    x.text.toList = Nat.toDigits 10 (numeralValue d) := by
  obtain ⟨hlt, rfl⟩ := exists_of_parseCount_numeral h hx
  rcases nearest_cases (numeralValue d) with ⟨hover, -⟩ | ⟨-, m, hnear, -⟩
  · exact absurd hover hlt.not_ge
  · rw [hnear]
    exact (text_nearest_iff hnear).mpr hexact

theorem showsDigits_of_isExact (h : IsNumeral d) (hexact : IsExact (numeralValue d)) :
    ShowsDigits d := by
  intro o host r hid hr
  rw [PromptOptions.result_showPrompt] at hr
  obtain ⟨agent, settings, template, hagent, hsettings, htemplate, rfl⟩ :=
    PromptOptions.exists_of_report hr
  have hgiven := PromptOptions.parseCount_of_agent hagent (by rw [hid]; rfl)
  rw [hid] at hgiven
  refine ⟨settings, template, hsettings, htemplate, ?_⟩
  rw [renderPrompt, String.toList_ofList, text_of_parseCount h hexact hgiven, plainDigits_eq h,
    intercalate_pieces_eq_replaceAll]

theorem numeralValue_inj (h : IsNumeral d) (h' : IsNumeral d')
    (hexact : IsExact (numeralValue d)) (hexact' : IsExact (numeralValue d'))
    (hx : parseCount flag (.text d) = .ok x) (hx' : parseCount flag (.text d') = .ok x) :
    numeralValue d = numeralValue d' := by
  have hdigits := (text_of_parseCount h hexact hx).symm.trans (text_of_parseCount h' hexact' hx')
  have hvalue := congrArg (Nat.ofDigitChars 10 · 0) hdigits
  simpa only [Nat.ofDigitChars_ten_toDigits] using hvalue

theorem numeralValue_eq_of_lt (h : IsNumeral d) (h' : IsNumeral d')
    (hsmall : numeralValue d < exactBound) (hx : parseCount flag (.text d) = .ok x)
    (hx' : parseCount flag (.text d') = .ok x) : numeralValue d = numeralValue d' := by
  obtain ⟨-, hnear⟩ := exists_of_parseCount_numeral h hx
  obtain ⟨hlt', hnear'⟩ := exists_of_parseCount_numeral h' hx'
  have hself : nearest (numeralValue d) = ofNat (numeralValue d) := isBinary64_ofNat hsmall
  rcases nearest_cases (numeralValue d') with ⟨hover, -⟩ | ⟨-, m, hm, -, hbelow, habove⟩
  · exact absurd hover hlt'.not_ge
  · have hsame : numeralValue d = m :=
      ofNat_inj.mp ((hself.symm.trans hnear).trans (hnear'.symm.trans hm))
    rcases lt_or_ge (numeralValue d') exactBound with hlt | hge
    · exact hsame.trans (hbelow hlt)
    · exact absurd (habove hge) (hsame ▸ hsmall).not_ge

end Numerals

/-- Digits are refused from the bound on, and else give the nearest number. It is written with the
digits exactly if they state an exact number, as fifteen significant digits below `10 ^ 21` do;
then a prompt has them in place of each marker. No two exact numbers give the same agent, and
none below `2 ^ 53` gives the agent of another one. -/
theorem agentNumber_of_digits (flag : String) {d : String} (h : IsNumeral d) :
    parseCount flag (.text d) =
      (if overflow ≤ numeralValue d then .error (.configuration (.notNatural flag d))
      else .ok (nearest (numeralValue d))) ∧
    (Unaltered flag d ↔ overflow ≤ numeralValue d ∨ IsExact (numeralValue d)) ∧
    (∀ m k, numeralValue d = m * 10 ^ k → m < 10 ^ 15 → numeralValue d < 10 ^ 21 →
      IsExact (numeralValue d)) ∧
    (IsExact (numeralValue d) → ShowsDigits d) ∧
    ∀ d' x, IsNumeral d' → parseCount flag (.text d) = .ok x → parseCount flag (.text d') = .ok x →
      IsExact (numeralValue d) ∧ IsExact (numeralValue d') ∨ numeralValue d < exactBound →
      numeralValue d = numeralValue d' := by
  refine ⟨parseCount_numeral flag h, unaltered_iff flag h, ?_, showsDigits_of_isExact h, ?_⟩
  · intro m k hvalue hm hlt
    rw [hvalue] at hlt ⊢
    exact isExact_of_significant hm hlt
  rintro d' x h' hx hx' (⟨hexact, hexact'⟩ | hsmall)
  · exact numeralValue_inj h h' hexact hexact' hx hx'
  · exact numeralValue_eq_of_lt h h' hsmall hx hx'

def templated : Disk := ⟨.directory [("t", .file (Utf8.encode "A\x7bN\x7d"))], []⟩

/-- The power of two behind `2 ^ 53` is exact, with or without zeros in front, and so is a large
number of three digits. -/
theorem agentNumber_of_digits_zeros :
    let h : Host := ⟨templated, {}⟩
    let d := "0018014398509481984"
    let d' := "18014398509481984"
    let rounded := "123000000000000000000"
    let o : PromptOptions := { id := .text d, template := .text "t" }
    let x := Number.ofNat 18014398509481984
    (IsNumeral d ∧ IsExact (numeralValue d) ∧ Unaltered "--id" d) ∧
    (∃ r, (showPrompt o h).result = .ok r ∧ ∃ settings template, o.settings h = .ok settings ∧
      loadTemplate h.disk settings.template = .ok template ∧
      r.prompt.toList = replaceAll marker.toList (plainDigits d) template.toList) ∧
    (IsNumeral d' ∧ IsExact (numeralValue d') ∧ parseCount "--id" (.text d) = .ok x ∧
      parseCount "--id" (.text d') = .ok x ∧ numeralValue d = numeralValue d') ∧
    IsNumeral rounded ∧ numeralValue rounded = 123 * 10 ^ 18 ∧ IsExact (numeralValue rounded) := by
  intro h d d' rounded o x
  have hnumeral : IsNumeral d := by decide +kernel
  have hnumeral' : IsNumeral d' := by decide +kernel
  have hrounded : IsNumeral rounded := by decide +kernel
  obtain ⟨-, hunaltered, -, hshows, hinj⟩ := agentNumber_of_digits "--id" hnumeral
  obtain ⟨-, -, hfifteen, -⟩ := agentNumber_of_digits "--id" hrounded
  have hexact : IsExact 18014398509481984 := by
    refine Or.inr ⟨by decide, 18014398509481984, ?_, ?_⟩
    · decide +kernel
    · decide +kernel
  have hvalue : numeralValue d = 18014398509481984 := by decide +kernel
  have hvalue' : numeralValue d' = 18014398509481984 := by decide +kernel
  have hvalueRounded : numeralValue rounded = 123 * 10 ^ 18 := by decide +kernel
  obtain ⟨_, hx, rfl⟩ : ∃ y, parseCount "--id" (.text d) = .ok y ∧ y = x :=
    exists_of_toOption_map (by decide +kernel)
  obtain ⟨_, hx', rfl⟩ : ∃ y, parseCount "--id" (.text d') = .ok y ∧ y = x :=
    exists_of_toOption_map (by decide +kernel)
  obtain ⟨r, hr, -⟩ : ∃ r, (showPrompt o h).result = .ok r ∧ r.prompt = "A18014398509481984" :=
    exists_of_toOption_map (by decide +kernel)
  rw [← hvalue] at hexact
  have hexact' : IsExact (numeralValue d') := hvalue' ▸ hvalue ▸ hexact
  exact ⟨⟨hnumeral, hexact, hunaltered.mpr (Or.inr hexact)⟩,
    ⟨r, hr, hshows hexact o h r rfl hr⟩,
    ⟨hnumeral', hexact', hx, hx', hinj d' x hnumeral' hx hx' (Or.inl ⟨hexact, hexact'⟩)⟩,
    hrounded, hvalueRounded,
    hfifteen 123 18 hvalueRounded (by decide) (by rw [hvalueRounded]; decide)⟩

/-- The number behind `2 ^ 53` is rounded to it, and `10 ^ 21` is written with an exponent. -/
theorem not_agentNumber_of_digits :
    (¬ ∀ flag d, IsNumeral d → Unaltered flag d) ∧ (¬ ∀ d, IsNumeral d → ShowsDigits d) ∧
    ¬ ∀ flag d d' x, IsNumeral d → IsNumeral d' → parseCount flag (.text d) = .ok x →
      parseCount flag (.text d') = .ok x → numeralValue d = numeralValue d' := by
  let x := Number.ofNat 9007199254740992
  have hbound : IsNumeral "9007199254740992" := by decide +kernel
  have hnext : IsNumeral "9007199254740993" := by decide +kernel
  obtain ⟨_, hx, rfl⟩ : ∃ y, parseCount "--count" (.text "9007199254740992") = .ok y ∧ y = x :=
    exists_of_toOption_map (by decide +kernel)
  obtain ⟨_, hx', rfl⟩ : ∃ y, parseCount "--count" (.text "9007199254740993") = .ok y ∧ y = x :=
    exists_of_toOption_map (by decide +kernel)
  refine ⟨fun hall => ?_, fun hall => ?_, fun hall => ?_⟩
  · rcases hall "--count" _ hnext with hrefused | ⟨y, hy, hdigits⟩
    · cases hx'.symm.trans hrefused
    · obtain rfl := Except.ok.inj (hx'.symm.trans hy)
      exact absurd hdigits (by decide +kernel)
  · let h : Host := ⟨templated, {}⟩
    let o : PromptOptions := { id := .text "1000000000000000000000", template := .text "t" }
    obtain ⟨r, hr, hprompt⟩ : ∃ r, (showPrompt o h).result = .ok r ∧ r.prompt = "A1e+21" :=
      exists_of_toOption_map (by decide +kernel)
    obtain ⟨settings, template, hsettings, htemplate, hdigits⟩ :=
      hall _ (by decide +kernel) o h r rfl hr
    have hpath : settings.template = "t" :=
      forall_of_toOption_map (f := (·.template)) (by decide +kernel) settings hsettings
    rw [hpath] at htemplate
    obtain rfl : template = "A\x7bN\x7d" :=
      forall_of_toOption_map (f := id) (by decide +kernel) template htemplate
    rw [hprompt] at hdigits
    exact absurd hdigits (by decide +kernel)
  · have hsame := hall "--count" _ _ x hbound hnext hx hx'
    exact absurd hsame (by decide +kernel)

end AgentPrompts
