import AgentPrompts.Proofs.Text.WellFormed

/-! # Repaired bytes

Bytes are repaired by putting U+FFFD in the place of each ill-formed sequence: the longest
beginning of a character where no character stands, or else a single byte. Reading bytes
as UTF-8 and writing them again repairs them and does nothing else. An ASCII byte belongs
to no ill-formed sequence, so what stands before it and what stands behind it are repaired
apart.
-/

namespace AgentPrompts.Utf8

def Begins (bytes : List UInt8) : Prop := ∃ c, bytes <+: String.utf8EncodeChar c

structure IllFormed (bad rest : List UInt8) : Prop where
  nonempty : bad ≠ []
  noChar : ∀ c, ¬ String.utf8EncodeChar c <+: bad ++ rest
  begins : bad.length = 1 ∨ Begins bad
  longest : ∀ longer, longer <+: bad ++ rest → Begins longer → longer.length ≤ bad.length

def replacementBytes : List UInt8 := [0xEF, 0xBF, 0xBD]

/-- Bytes, and the same bytes with U+FFFD in the place of each ill-formed sequence. -/
inductive Repaired : List UInt8 → List UInt8 → Prop where
  | nil : Repaired [] []
  | char (c : Char) {bytes repaired : List UInt8} (h : Repaired bytes repaired) :
      Repaired (String.utf8EncodeChar c ++ bytes) (String.utf8EncodeChar c ++ repaired)
  | illFormed {bad bytes repaired : List UInt8} (hbad : IllFormed bad bytes)
      (h : Repaired bytes repaired) : Repaired (bad ++ bytes) (replacementBytes ++ repaired)

variable {a b c d : UInt8} {bad rest bytes repaired xs ys xs' ys' : List UInt8}

theorem encodeChar_append_inj {c c' : Char}
    (h : String.utf8EncodeChar c ++ xs = String.utf8EncodeChar c' ++ ys) : c = c' ∧ xs = ys := by
  have hread := congrArg decodeChars h
  rw [decodeChars_encodeChar, decodeChars_encodeChar] at hread
  obtain rfl := List.head_eq_of_cons_eq hread
  exact ⟨rfl, List.append_cancel_left h⟩

theorem eq_of_encodeChar_prefix {c c' : Char}
    (h : String.utf8EncodeChar c <+: String.utf8EncodeChar c') : c = c' := by
  obtain ⟨more, hmore⟩ := h
  rw [← List.append_nil (String.utf8EncodeChar c')] at hmore
  exact (encodeChar_append_inj hmore).1

theorem Begins.of_prefix (h : Begins ys) (hp : xs <+: ys) : Begins xs := by
  obtain ⟨c, hc⟩ := h
  exact ⟨c, hp.trans hc⟩

section Beginnings

theorem begins_two (h : Begins [a, b]) :
    0xC2 ≤ a.toNat ∧ a.toNat ≤ 0xDF ∧ isContinuation b ∨
      0xE0 ≤ a.toNat ∧ a.toNat ≤ 0xF4 ∧ isSecond a b := by
  obtain ⟨c, more, hmore⟩ := h
  have hc := isChar_encodeChar c
  rw [← hmore, List.cons_append, List.cons_append] at hc
  cases hc with
  | two ha ha' hb => exact Or.inl ⟨ha, ha', hb⟩
  | three ha ha' hb => exact Or.inr ⟨ha, by omega, hb⟩
  | four ha ha' hb => exact Or.inr ⟨by omega, ha', hb⟩

theorem not_begins_of_not_isContinuation (ha : a.toNat ≤ 0xDF) (hb : ¬ isContinuation b) :
    ¬ Begins [a, b] := by
  intro h
  rcases begins_two h with ⟨_, _, hb'⟩ | ⟨hfirst, _⟩
  · exact hb hb'
  · omega

theorem not_begins_of_not_isSecond (ha : 0xE0 ≤ a.toNat) (hb : ¬ isSecond a b) :
    ¬ Begins [a, b] := by
  intro h
  rcases begins_two h with ⟨_, hlast, _⟩ | ⟨_, _, hb'⟩
  · omega
  · exact hb hb'

theorem begins_three (h : Begins [a, b, c]) : isContinuation c := by
  obtain ⟨e, more, hmore⟩ := h
  have hc := isChar_encodeChar e
  rw [← hmore, List.cons_append, List.cons_append, List.cons_append] at hc
  cases hc with
  | three _ _ _ hc => exact hc
  | four _ _ _ hc => exact hc

theorem begins_four (h : Begins [a, b, c, d]) : isContinuation d := by
  obtain ⟨e, more, hmore⟩ := h
  have hc := isChar_encodeChar e
  rw [← hmore, List.cons_append, List.cons_append, List.cons_append, List.cons_append] at hc
  cases hc with
  | four _ _ _ _ hd => exact hd

theorem begins_of_isSecond (ha : 0xE0 ≤ a.toNat) (ha' : a.toNat ≤ 0xF4) (hb : isSecond a b) :
    Begins [a, b] := by
  have htail : isContinuation 0x80 := by decide
  by_cases h : a.toNat ≤ 0xEF
  · exact ⟨_, [0x80], (encodeChar_scalar3 ha h hb htail).symm⟩
  · exact ⟨_, [0x80, 0x80], (encodeChar_scalar4 (by omega) ha' hb htail htail).symm⟩

theorem begins_of_isContinuation (ha : 0xF0 ≤ a.toNat) (ha' : a.toNat ≤ 0xF4)
    (hb : isSecond a b) (hc : isContinuation c) : Begins [a, b, c] :=
  ⟨_, [0x80], (encodeChar_scalar4 ha ha' hb hc (by decide)).symm⟩

end Beginnings

section IllFormedSequences

theorem illFormed_of_stops (hbad : bad ≠ []) (hwhole : ¬ IsChar bad)
    (hbegins : bad.length = 1 ∨ Begins bad)
    (hstop : ∀ next, rest.head? = some next → ¬ Begins (bad ++ [next])) : IllFormed bad rest := by
  have hlongest : ∀ longer, longer <+: bad ++ rest → Begins longer →
      longer.length ≤ bad.length := by
    intro longer hp hlonger
    by_contra hlt
    have hbad' : bad <+: longer :=
      List.prefix_of_prefix_length_le (List.prefix_append bad rest) hp (by omega)
    obtain ⟨more, rfl⟩ := hbad'
    cases more with
    | nil => simp at hlt
    | cons next more =>
      obtain ⟨rest', hrest⟩ := (List.prefix_append_right_inj bad).mp hp
      refine hstop next (by rw [← hrest]; rfl) (hlonger.of_prefix ?_)
      exact (List.prefix_append_right_inj bad).mpr (List.prefix_append [next] more)
  refine ⟨hbad, fun c hp => hwhole ?_, hbegins, hlongest⟩
  have hshort := hlongest _ hp ⟨c, List.prefix_rfl⟩
  have hp' := List.prefix_of_prefix_length_le hp (List.prefix_append bad rest) hshort
  have heq : String.utf8EncodeChar c = bad := by
    rcases hbegins with hone | ⟨c', hc'⟩
    · have hpos := List.length_pos_iff.mpr (String.utf8EncodeChar_ne_nil (c := c))
      exact hp'.eq_of_length (by omega)
    · obtain rfl := eq_of_encodeChar_prefix (hp'.trans hc')
      exact hp'.eq_of_length (le_antisymm hp'.length_le hc'.length_le)
  exact heq ▸ isChar_encodeChar c

theorem illFormed_one (ha : 0x80 ≤ a.toNat)
    (hstop : ∀ next, rest.head? = some next → ¬ Begins [a, next]) : IllFormed [a] rest := by
  refine illFormed_of_stops (List.cons_ne_nil a []) (fun h => ?_) (Or.inl rfl) hstop
  cases h
  omega

theorem illFormed_two (ha : 0xE0 ≤ a.toNat) (ha' : a.toNat ≤ 0xF4) (hb : isSecond a b)
    (hstop : ∀ next, rest.head? = some next → ¬ isContinuation next) :
    IllFormed [a, b] rest := by
  refine illFormed_of_stops (List.cons_ne_nil a [b]) (fun h => ?_)
    (Or.inr (begins_of_isSecond ha ha' hb)) fun next hnext h => hstop next hnext (begins_three h)
  cases h
  omega

theorem illFormed_three (ha : 0xF0 ≤ a.toNat) (ha' : a.toNat ≤ 0xF4) (hb : isSecond a b)
    (hc : isContinuation c) (hstop : ∀ next, rest.head? = some next → ¬ isContinuation next) :
    IllFormed [a, b, c] rest := by
  refine illFormed_of_stops (List.cons_ne_nil a [b, c]) (fun h => ?_)
    (Or.inr (begins_of_isContinuation ha ha' hb hc))
    fun next hnext h => hstop next hnext (begins_four h)
  cases h
  omega

theorem IllFormed.length_le {bad' rest' : List UInt8} (h : IllFormed bad rest)
    (h' : IllFormed bad' rest') (he : bad ++ rest = bad' ++ rest') :
    bad'.length ≤ bad.length := by
  rcases h'.begins with hone | hbegins
  · have := List.length_pos_iff.mpr h.nonempty
    omega
  · exact h.longest bad' (he ▸ List.prefix_append bad' rest') hbegins

end IllFormedSequences

section Unique

theorem Repaired.of_nil (h : Repaired [] repaired) : repaired = [] := by
  generalize hwhole : ([] : List UInt8) = whole at h
  cases h with
  | nil => rfl
  | char c => exact absurd (List.append_eq_nil_iff.mp hwhole.symm).1 String.utf8EncodeChar_ne_nil
  | illFormed hbad => exact absurd (List.append_eq_nil_iff.mp hwhole.symm).1 hbad.nonempty

theorem Repaired.of_char {c : Char} (h : Repaired (String.utf8EncodeChar c ++ bytes) repaired) :
    ∃ behind, repaired = String.utf8EncodeChar c ++ behind ∧ Repaired bytes behind := by
  generalize hwhole : String.utf8EncodeChar c ++ bytes = whole at h
  cases h with
  | nil => exact absurd (List.append_eq_nil_iff.mp hwhole).1 String.utf8EncodeChar_ne_nil
  | char c' h =>
    obtain ⟨rfl, rfl⟩ := encodeChar_append_inj hwhole
    exact ⟨_, rfl, h⟩
  | illFormed hbad => exact absurd ⟨bytes, hwhole⟩ (hbad.noChar c)

theorem Repaired.of_illFormed (hbad : IllFormed bad bytes) (h : Repaired (bad ++ bytes) repaired) :
    ∃ behind, repaired = replacementBytes ++ behind ∧ Repaired bytes behind := by
  generalize hwhole : bad ++ bytes = whole at h
  cases h with
  | nil => exact absurd (List.append_eq_nil_iff.mp hwhole).1 hbad.nonempty
  | char c => exact absurd ⟨_, hwhole.symm⟩ (hbad.noChar c)
  | illFormed hbad' h =>
    have hlen := le_antisymm (hbad'.length_le hbad hwhole.symm) (hbad.length_le hbad' hwhole)
    obtain ⟨rfl, rfl⟩ := List.append_inj hwhole hlen
    exact ⟨_, rfl, h⟩

theorem Repaired.unique {repaired' : List UInt8} (h : Repaired bytes repaired)
    (h' : Repaired bytes repaired') : repaired' = repaired := by
  induction h generalizing repaired' with
  | nil => exact h'.of_nil
  | char c h ih =>
    obtain ⟨behind, rfl, hbehind⟩ := h'.of_char
    rw [ih hbehind]
  | illFormed hbad h ih =>
    obtain ⟨behind, rfl, hbehind⟩ := Repaired.of_illFormed hbad h'
    rw [ih hbehind]

end Unique

section Reading

theorem Repaired.cons_char {c : Char} {cs : List Char} (he : String.utf8EncodeChar c = bytes)
    (h : Repaired rest (cs.flatMap String.utf8EncodeChar)) :
    Repaired (bytes ++ rest) ((c :: cs).flatMap String.utf8EncodeChar) := by
  subst he
  exact .char c h

theorem Repaired.cons_replacement {cs : List Char} (hbad : IllFormed bad rest)
    (h : Repaired rest (cs.flatMap String.utf8EncodeChar)) :
    Repaired (bad ++ rest) ((replacement :: cs).flatMap String.utf8EncodeChar) := by
  have he : String.utf8EncodeChar replacement = replacementBytes := by decide
  rw [List.flatMap_cons, he]
  exact .illFormed hbad h

theorem lead_iff {first last : UInt8} : (decide (first ≤ a) && decide (a ≤ last)) = true ↔
    first.toNat ≤ a.toNat ∧ a.toNat ≤ last.toNat := by
  simp [UInt8.le_iff_toNat_le]

/-- What decoding reads from bytes, written again, is the bytes repaired. -/
theorem repaired_decodeChars (bytes : List UInt8) :
    Repaired bytes ((decodeChars bytes).flatMap String.utf8EncodeChar) := by
  -- the cases go by the number of bytes that the first byte asks for, and by the first of them
  -- that is missing or does not continue the character
  fun_induction decodeChars bytes with
  | case1 => exact .nil
  | case2 a as ha ih => exact .cons_char (encodeChar_ascii (UInt8.lt_iff_toNat_lt.mp ha)) ih
  | case3 a ha htwo =>
    simp only [lead_iff, UInt8.reduceToNat] at htwo
    exact .cons_replacement (illFormed_one (by omega) (by simp)) .nil
  | case4 a ha htwo b bs hb ih =>
    simp only [lead_iff, UInt8.reduceToNat] at htwo
    exact .cons_char (encodeChar_scalar2 htwo.1 htwo.2 hb) ih
  | case5 a ha htwo b bs hb ih =>
    simp only [lead_iff, UInt8.reduceToNat] at htwo
    have hstop := not_begins_of_not_isContinuation htwo.2 hb
    exact .cons_replacement (illFormed_one (by omega) (by simpa using hstop)) ih
  | case6 a ha htwo hthree =>
    simp only [lead_iff, UInt8.reduceToNat] at hthree
    exact .cons_replacement (illFormed_one (by omega) (by simp)) .nil
  | case7 a ha htwo hthree b hb =>
    simp only [lead_iff, UInt8.reduceToNat] at hthree
    exact .cons_replacement (illFormed_two hthree.1 (by omega) hb (by simp)) .nil
  | case8 a ha htwo hthree b hb c cs hc ih =>
    simp only [lead_iff, UInt8.reduceToNat] at hthree
    exact .cons_char (encodeChar_scalar3 hthree.1 hthree.2 hb hc) ih
  | case9 a ha htwo hthree b hb c cs hc ih =>
    simp only [lead_iff, UInt8.reduceToNat] at hthree
    exact .cons_replacement (illFormed_two hthree.1 (by omega) hb (by simpa using hc)) ih
  | case10 a ha htwo hthree b bs hb ih =>
    simp only [lead_iff, UInt8.reduceToNat] at hthree
    have hstop := not_begins_of_not_isSecond (by omega) hb
    exact .cons_replacement (illFormed_one (by omega) (by simpa using hstop)) ih
  | case11 a ha htwo hthree hfour =>
    simp only [lead_iff, UInt8.reduceToNat] at hfour
    exact .cons_replacement (illFormed_one (by omega) (by simp)) .nil
  | case12 a ha htwo hthree hfour b hb =>
    simp only [lead_iff, UInt8.reduceToNat] at hfour
    exact .cons_replacement (illFormed_two (by omega) hfour.2 hb (by simp)) .nil
  | case13 a ha htwo hthree hfour b hb c hc =>
    simp only [lead_iff, UInt8.reduceToNat] at hfour
    exact .cons_replacement (illFormed_three hfour.1 hfour.2 hb hc (by simp)) .nil
  | case14 a ha htwo hthree hfour b hb c hc d ds hd ih =>
    simp only [lead_iff, UInt8.reduceToNat] at hfour
    exact .cons_char (encodeChar_scalar4 hfour.1 hfour.2 hb hc hd) ih
  | case15 a ha htwo hthree hfour b hb c hc d ds hd ih =>
    simp only [lead_iff, UInt8.reduceToNat] at hfour
    exact .cons_replacement (illFormed_three hfour.1 hfour.2 hb hc (by simpa using hd)) ih
  | case16 a ha htwo hthree hfour b hb c cs hc ih =>
    simp only [lead_iff, UInt8.reduceToNat] at hfour
    exact .cons_replacement (illFormed_two (by omega) hfour.2 hb (by simpa using hc)) ih
  | case17 a ha htwo hthree hfour b bs hb ih =>
    simp only [lead_iff, UInt8.reduceToNat] at hfour
    have hstop := not_begins_of_not_isSecond (by omega) hb
    exact .cons_replacement (illFormed_one (by omega) (by simpa using hstop)) ih
  | case18 a as ha htwo hthree hfour ih =>
    simp only [lead_iff, UInt8.lt_iff_toNat_lt, UInt8.reduceToNat] at ha htwo hthree hfour
    have hstop : ∀ next, ¬ Begins [a, next] := fun next h => by
      rcases begins_two h with ⟨hfirst, hlast, _⟩ | ⟨hfirst, hlast, _⟩ <;> omega
    exact .cons_replacement (illFormed_one (by omega) fun next _ => hstop next) ih

/-- To read bytes as UTF-8 and to write them again is to repair them. -/
theorem repaired_iff : Repaired bytes repaired ↔ repaired = encode (decode bytes) := by
  have hread : Repaired bytes (encode (decode bytes)) := by
    rw [decode, encode, String.toList_ofList]
    exact repaired_decodeChars bytes
  constructor
  · exact fun h => hread.unique h
  · rintro rfl
    exact hread

end Reading

section Ascii

theorem prefix_of_ascii (ha : a.toNat < 0x80) (hxs : xs ≠ []) (h : bytes <+: xs ++ a :: ys)
    (hb : Begins bytes) : bytes <+: xs := by
  rcases List.prefix_or_prefix_of_prefix h (List.prefix_append xs _) with hp | ⟨more, rfl⟩
  · exact hp
  · cases more with
    | nil => simp
    | cons next more =>
      obtain ⟨first, xs, rfl⟩ := List.exists_cons_of_ne_nil hxs
      obtain ⟨rfl, _⟩ := List.cons_prefix_cons.mp ((List.prefix_append_right_inj _).mp h)
      obtain ⟨c, rest, hrest⟩ := hb
      have hc := isChar_encodeChar c
      rw [← hrest, List.cons_append, List.cons_append] at hc
      have := not_ascii_of_isChar hc (b := next) (by simp)
      omega

/-- An ASCII byte behind an ill-formed sequence and what follows it does not matter. -/
theorem illFormed_append_ascii_iff (ha : a.toNat < 0x80) :
    IllFormed bad (xs ++ a :: ys) ↔ IllFormed bad xs := by
  have hextend : bad ++ xs <+: bad ++ (xs ++ a :: ys) :=
    (List.prefix_append_right_inj bad).mpr (List.prefix_append xs _)
  constructor
  · intro h
    exact ⟨h.nonempty, fun c hp => h.noChar c (hp.trans hextend), h.begins,
      fun longer hp => h.longest longer (hp.trans hextend)⟩
  · intro h
    have hne : bad ++ xs ≠ [] := List.append_ne_nil_of_left_ne_nil h.nonempty xs
    have hback : ∀ bytes, bytes <+: bad ++ (xs ++ a :: ys) → Begins bytes → bytes <+: bad ++ xs :=
      fun bytes hp hb => prefix_of_ascii ha hne (by rwa [List.append_assoc]) hb
    exact ⟨h.nonempty, fun c hp => h.noChar c (hback _ hp ⟨c, List.prefix_rfl⟩), h.begins,
      fun longer hp hb => h.longest longer (hback _ hp hb) hb⟩

theorem Repaired.cons_ascii (ha : a.toNat < 0x80) (h : Repaired ys ys') :
    Repaired (a :: ys) (a :: ys') := by
  have hchar := Repaired.char (Char.ofNat a.toNat) h
  rwa [encodeChar_ascii ha] at hchar

theorem Repaired.append_ascii (ha : a.toNat < 0x80) (h : Repaired xs xs')
    (h' : Repaired (a :: ys) (a :: ys')) : Repaired (xs ++ a :: ys) (xs' ++ a :: ys') := by
  induction h with
  | nil => exact h'
  | char c h ih =>
    rw [List.append_assoc, List.append_assoc]
    exact .char c ih
  | illFormed hbad h ih =>
    rw [List.append_assoc, List.append_assoc]
    exact .illFormed ((illFormed_append_ascii_iff ha).mpr hbad) ih

theorem encodeChar_cases {c : Char} (ha : a.toNat < 0x80)
    (h : String.utf8EncodeChar c ++ bytes = xs ++ a :: ys) :
    (∃ more, xs = String.utf8EncodeChar c ++ more ∧ bytes = more ++ a :: ys) ∨
      xs = [] ∧ String.utf8EncodeChar c = [a] ∧ bytes = ys := by
  rcases List.append_eq_append_iff.mp h with ⟨more, hxs, hbytes⟩ | ⟨more, hc, hys⟩
  · exact Or.inl ⟨more, hxs, hbytes⟩
  · rcases List.append_eq_cons_iff.mp hys.symm with ⟨rfl, rfl⟩ | ⟨more, rfl, rfl⟩
    · exact Or.inl ⟨[], by rw [hc, List.append_nil, List.append_nil], rfl⟩
    · have hchar := isChar_encodeChar c
      rw [hc] at hchar
      cases xs with
      | nil =>
        obtain rfl := eq_singleton_of_isChar hchar ha
        exact Or.inr ⟨rfl, hc, rfl⟩
      | cons first xs =>
        have := not_ascii_of_isChar hchar (b := a) (by simp)
        omega

/-- Repairing makes no ASCII byte: each stood there before, between what is repaired before
it and behind it. -/
theorem Repaired.exists_ascii (ha : a.toNat < 0x80) (h : Repaired bytes (xs' ++ a :: ys')) :
    ∃ xs ys, bytes = xs ++ a :: ys ∧ Repaired xs xs' ∧ Repaired ys ys' := by
  generalize hwhole : xs' ++ a :: ys' = whole at h
  induction h generalizing xs' with
  | nil => exact absurd hwhole (by simp)
  | @char c bytes repaired h ih =>
    rcases encodeChar_cases ha hwhole.symm with ⟨more, rfl, hmore⟩ | ⟨rfl, hc, rfl⟩
    · obtain ⟨xs, ys, rfl, hxs, hys⟩ := ih hmore.symm
      exact ⟨_, ys, (List.append_assoc _ _ _).symm, .char c hxs, hys⟩
    · exact ⟨[], bytes, by rw [hc]; rfl, .nil, h⟩
  | @illFormed bad bytes repaired hbad h ih =>
    have he : String.utf8EncodeChar replacement = replacementBytes := by decide
    rw [← he] at hwhole
    rcases encodeChar_cases ha hwhole.symm with ⟨more, rfl, hmore⟩ | ⟨_, hc, _⟩
    · obtain ⟨xs, ys, rfl, hxs, hys⟩ := ih hmore.symm
      have hbad' := (illFormed_append_ascii_iff ha).mp hbad
      exact ⟨_, ys, (List.append_assoc _ _ _).symm, he ▸ .illFormed hbad' hxs, hys⟩
    · rw [he] at hc
      obtain rfl := List.head_eq_of_cons_eq hc
      exact absurd ha (by decide)

theorem Repaired.eq_nil (h : Repaired bytes []) : bytes = [] := by
  generalize hnil : ([] : List UInt8) = repaired at h
  cases h with
  | nil => rfl
  | char c => exact absurd (List.append_eq_nil_iff.mp hnil.symm).1 String.utf8EncodeChar_ne_nil
  | illFormed => exact absurd (List.append_eq_nil_iff.mp hnil.symm).1 (by decide)

theorem Repaired.exists_cons_ascii (ha : a.toNat < 0x80) (h : Repaired bytes (a :: ys')) :
    ∃ ys, bytes = a :: ys ∧ Repaired ys ys' := by
  obtain ⟨xs, ys, rfl, hxs, hys⟩ := Repaired.exists_ascii ha (List.nil_append (a :: ys') ▸ h)
  rw [hxs.eq_nil]
  exact ⟨ys, rfl, hys⟩

end Ascii

end AgentPrompts.Utf8
