import AgentPrompts.CommandLine.Invocation
import AgentPrompts.Proofs.Step

/-! # Command lines that add nothing

A dotted name may lead from an option to a shared object. A command line none of whose readings
ends there adds nothing: each reading finds the shared objects as they were, and leaves them so.
Then an invocation takes what the reading for its command has found.
-/

namespace AgentPrompts.CommandLine

theorem isOn_nil : ∀ name ∈ ["allowUnknownOptions", "json", "required"],
    Additions.isOn [] name = false := by
  decide

theorem firstWord_ofItems (vs : List Datum) : firstWord (.ofItems vs) [] = vs.headD .absent := by
  have hname : Datum.indexName 0 ≠ Datum.parentName := by decide
  have hlength : Datum.indexName 0 ≠ "length" := by decide
  have hinherited : Datum.sharedMember? [] (Datum.indexName 0) (.prototype .list) = none := by
    decide
  have hfound := Datum.get?_numbered vs 0 0
  rw [firstWord, Datum.get, if_neg hname, Datum.ofItems]
  simp only [Datum.member?, if_neg hlength, hinherited, Option.or_none]
  rw [hfound, List.headD_eq_head?_getD, List.head?_eq_getElem?]

/-- What the reading for a command adds to the shared objects, also where it fails. -/
def addedBy (c : Command) (args : List String) : Additions :=
  match Parsed.ofArgs c args [] with
  | .ok p => p.additions
  | .error e => e.additions

def AddsNothing (args : List String) : Prop := ∀ c, addedBy c args = []

theorem addsNothing_of_eval {args : List String}
    (h : Command.all.all fun c => (addedBy c args).isEmpty) : AddsNothing args := by
  intro c
  have hmem : c ∈ Command.all := by cases c <;> decide
  exact List.isEmpty_iff.mp (List.all_eq_true.mp h c hmem)

/-- What an invocation takes from the reading for its command: the words behind the one for the
command, or all words where none is for a command. -/
structure Invocation.TakenFrom (i : Invocation) (p : Parsed) : Prop where
  options : i.options = p.options
  additions : i.additions = []
  words : isText i.command.word (firstWord p.words []) = true ∧ i.words = afterFirst p.words ∨
    i.command = .unnamed ∧ i.words = p.words

namespace AddsNothing

variable {args : List String} {c : Command} {p : Parsed} {e : ReadingError} {i : Invocation}
  (h : AddsNothing args)
include h

theorem additions_eq_nil (hp : Parsed.ofArgs c args [] = .ok p) : p.additions = [] := by
  have hadded := h c
  rwa [addedBy, hp] at hadded

/-- Each of the readings finds the shared objects as they were at first. -/
theorem parsed_of_readings {cs : List Command} {rs : List (Command × Parsed)}
    {additions : Additions} (hr : readings args cs [] = .ok (rs, additions)) :
    additions = [] ∧ ∀ r ∈ rs, Parsed.ofArgs r.1 args [] = .ok r.2 := by
  induction cs generalizing rs with
  | nil =>
    obtain ⟨rfl, rfl⟩ := Prod.mk.inj (Except.ok.inj hr)
    exact ⟨rfl, fun r hr => by cases hr⟩
  | cons c cs ih =>
    rw [readings] at hr
    obtain ⟨p, hp, hr⟩ := exists_of_bind_eq_ok hr
    rw [h.additions_eq_nil hp] at hr
    obtain ⟨⟨rest, additions'⟩, hrest, hr⟩ := exists_of_bind_eq_ok hr
    obtain ⟨rfl, rfl⟩ := Prod.mk.inj (Except.ok.inj hr)
    exact ⟨(ih hrest).1, List.forall_mem_cons.mpr ⟨hp, (ih hrest).2⟩⟩

theorem exists_parsed (hi : Invocation.ofArgs args = .ok i) :
    ∃ p, Parsed.ofArgs i.command args [] = .ok p ∧ i.TakenFrom p := by
  obtain ⟨⟨rs, additions⟩, hr, hi⟩ := exists_of_bind_eq_ok hi
  obtain ⟨rfl, hparsed⟩ := h.parsed_of_readings hr
  simp only at hi
  split at hi
  next c p hlast =>
    obtain rfl := Except.ok.inj hi
    obtain ⟨hmem, hword⟩ := List.mem_filter.mp (List.mem_of_getLast? hlast)
    have hp := hparsed _ hmem
    rw [h.additions_eq_nil hp] at hword
    exact ⟨p, hp, rfl, rfl, Or.inl ⟨hword, rfl⟩⟩
  next =>
    obtain ⟨p, hp, hi⟩ := exists_of_bind_eq_ok hi
    obtain rfl := Except.ok.inj hi
    exact ⟨p, hp, rfl, h.additions_eq_nil hp, Or.inr ⟨rfl, rfl⟩⟩

theorem additions_of_ofArgs (hi : Invocation.ofArgs args = .ok i) : i.additions = [] := by
  obtain ⟨_, -, htaken⟩ := h.exists_parsed hi
  exact htaken.additions

end AddsNothing

end AgentPrompts.CommandLine
