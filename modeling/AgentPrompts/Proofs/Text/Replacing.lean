import Mathlib.Data.List.Infix

/-! # Replacing words

One scan from left to right replaces each occurrence of a word by another word and copies
everything else. It treats two texts one by one when no occurrence lies across their
boundary.
-/

namespace AgentPrompts

variable {α : Type}

/-- Whether an occurrence of a word begins in one text and ends in the next. -/
def Straddles (word as bs : List α) : Prop :=
  ∃ front back, front ≠ [] ∧ back ≠ [] ∧ word = front ++ back ∧ front <:+ as ∧ back <+: bs

theorem Straddles.of_suffix {word as as' bs : List α} (h : Straddles word as bs)
    (hs : as <:+ as') : Straddles word as' bs := by
  obtain ⟨front, back, hfront, hback, rfl, has, hbs⟩ := h
  exact ⟨front, back, hfront, hback, rfl, has.trans hs, hbs⟩

/-- An occurrence across a boundary is cut there at a place within the word. -/
theorem straddles_iff {word as bs : List α} : Straddles word as bs ↔
    ∃ k ∈ List.range word.length, 0 < k ∧ word.take k <:+ as ∧ word.drop k <+: bs := by
  constructor
  · rintro ⟨front, back, hfront, hback, rfl, has, hbs⟩
    have hpos := List.length_pos_iff.mpr hfront
    have hback' := List.length_pos_iff.mpr hback
    refine ⟨front.length, ?_, hpos, ?_, ?_⟩
    · rw [List.mem_range, List.length_append]
      omega
    · rwa [List.take_left]
    · rwa [List.drop_left]
  · rintro ⟨k, hk, hpos, has, hbs⟩
    rw [List.mem_range] at hk
    refine ⟨word.take k, word.drop k, ?_, ?_, (List.take_append_drop k word).symm, has, hbs⟩
    · rw [← List.length_pos_iff, List.length_take]
      omega
    · rw [← List.length_pos_iff, List.length_drop]
      omega

instance [DecidableEq α] (word as bs : List α) : Decidable (Straddles word as bs) :=
  decidable_of_iff _ straddles_iff.symm

section Replacing

variable [DecidableEq α]

/-- Scans a text from left to right. The number is that of the elements still to be passed
over, which belong to an occurrence that has been replaced. -/
def replaceFrom (old new : List α) : Nat → List α → List α
  | _, [] => []
  | skip + 1, _ :: as => replaceFrom old new skip as
  | 0, a :: as =>
    if old <+: a :: as then new ++ replaceFrom old new (old.length - 1) as
    else a :: replaceFrom old new 0 as

/-- The text in which each occurrence of `old`, found from left to right, is replaced by `new`. -/
def replaceAll (old new as : List α) : List α := replaceFrom old new 0 as

variable {old new : List α}

theorem replaceFrom_length (passed as : List α) :
    replaceFrom old new passed.length (passed ++ as) = replaceAll old new as := by
  induction passed with
  | nil => rfl
  | cons a passed ih => exact ih

theorem replaceAll_occurrence (hne : old ≠ []) (as : List α) :
    replaceAll old new (old ++ as) = new ++ replaceAll old new as := by
  obtain ⟨a, passed, rfl⟩ := List.exists_cons_of_ne_nil hne
  have hbegin : a :: passed <+: a :: (passed ++ as) := List.prefix_append (a :: passed) as
  rw [← replaceFrom_length passed as, replaceAll, List.cons_append, replaceFrom, if_pos hbegin,
    List.length_cons, Nat.add_sub_cancel]

theorem replaceAll_copy {a : α} {as : List α} (h : ¬ old <+: a :: as) :
    replaceAll old new (a :: as) = a :: replaceAll old new as := by
  rw [replaceAll, replaceFrom, if_neg h, ← replaceAll]

theorem replaceAll_copy_all {first : α} {copied : List α} (h : first ∉ copied) (as : List α) :
    replaceAll (first :: old) new (copied ++ as) = copied ++ replaceAll (first :: old) new as := by
  induction copied with
  | nil => rfl
  | cons a copied ih =>
    obtain ⟨hne, hrest⟩ := not_or.mp (mt List.mem_cons.mpr h)
    have hbegin : ¬ first :: old <+: a :: (copied ++ as) :=
      fun hp => hne (List.cons_prefix_cons.mp hp).1
    rw [List.cons_append, replaceAll_copy hbegin, ih hrest, List.cons_append]

/-- A scan passes over an occurrence, or over one element where no occurrence begins. -/
@[elab_as_elim] theorem scan_induction {motive : List α → Prop} (hne : old ≠ [])
    (nil : motive [])
    (occurrence : ∀ as, motive as → motive (old ++ as))
    (copy : ∀ a as, ¬ old <+: a :: as → motive as → motive (a :: as)) (as : List α) :
    motive as := by
  induction hlen : as.length using Nat.strong_induction_on generalizing as with
  | h n ih =>
    subst hlen
    cases as with
    | nil => exact nil
    | cons a as =>
      by_cases hold : old <+: a :: as
      · obtain ⟨rest, hrest⟩ := hold
        have hpos := List.length_pos_iff.mpr hne
        have hlt : rest.length < (a :: as).length := by
          rw [← hrest, List.length_append]
          omega
        exact hrest ▸ occurrence rest (ih rest.length hlt rest rfl)
      · exact copy a as hold (ih as.length (Nat.lt_succ_self _) as rfl)

/-- Two texts are scanned one by one when no occurrence lies across their boundary. -/
theorem replaceAll_append {as bs : List α} (hne : old ≠ []) (h : ¬ Straddles old as bs) :
    replaceAll old new (as ++ bs) = replaceAll old new as ++ replaceAll old new bs := by
  induction as using scan_induction hne with
  | nil => rfl
  | occurrence as ih =>
    have hrest : ¬ Straddles old as bs := fun hcross =>
      h (hcross.of_suffix (List.suffix_append old as))
    rw [List.append_assoc, replaceAll_occurrence hne, replaceAll_occurrence hne, ih hrest,
      List.append_assoc]
  | copy a as hold ih =>
    have hrest : ¬ Straddles old as bs := fun hcross =>
      h (hcross.of_suffix (List.suffix_cons a as))
    -- an occurrence here would end in the second text
    have hacross : ¬ old <+: a :: (as ++ bs) := by
      intro hp
      have has : a :: as <+: a :: (as ++ bs) := List.prefix_append (a :: as) bs
      rcases List.prefix_or_prefix_of_prefix hp has with hp' | ⟨back, rfl⟩
      · exact hold hp'
      · have hback : back <+: bs := (List.prefix_append_right_inj (a :: as)).mp hp
        refine h ⟨a :: as, back, List.cons_ne_nil a as, ?_, rfl, List.suffix_rfl, hback⟩
        rintro rfl
        exact hold (by rw [List.append_nil])
    rw [List.cons_append, replaceAll_copy hacross, replaceAll_copy hold, ih hrest,
      List.cons_append]

end Replacing

end AgentPrompts
