import AgentPrompts.CommandLine.Options
import AgentPrompts.Proofs.Members.Listed

/-! # Readers without additions

Where nothing was added to the shared objects, the tables of a reader hold what its command
declares and nothing else: two flags have a second name each, some are switches, and there are no
defaults. Then items are collected one after the other, and in the end each flag with a second name
is found under both.
-/

namespace AgentPrompts.CommandLine

def Command.switches (c : Command) : List String :=
  (c.allOptions.filter fun o => !o.takesValue).flatMap (·.names)

def twoNames : Members String := [("h", "help"), ("v", "version"), ("help", "h"), ("version", "v")]

/-- The reader of a command line for some switches. -/
def Reader.ofSwitches (switches : List String) : Reader where
  aliases := ⟨twoNames.map fun m => (m.1, .ofItems [.text m.2]), Datum.emptyRecord.parent⟩
  switches := switches
  texts := []
  defaults := .absent
  strict := false

theorem Reader.ofOptions_eq (c : Command) :
    Reader.ofOptions c.allOptions [] = .ok (.ofSwitches c.switches) := by
  cases c <;> rfl

namespace Flags

def alias? (name : String) : Option String := Members.get? name twoNames

def addAlias (flags : Flags) (name : String) : Flags :=
  match alias? name with
  | some other => flags.replace other (flags.get [] name)
  | none => flags

def names (flags : Flags) : List String := flags.record.enumerated []

def addAliases (flags : Flags) : Flags := flags.names.foldl addAlias flags

variable {switches : List String}

theorem readItem_eq : readItem (.ofSwitches switches) [] = addItem (.ofSwitches switches) [] := by
  funext flags item
  have hrefuses : (Reader.ofSwitches switches).refuses = fun _ => false := rfl
  rw [readItem, hrefuses, if_neg (by simp)]

theorem addItem_on (flags : Flags) (name : String) :
    flags.addItem (.ofSwitches switches) [] (.on name) = .ok (flags.add [] name (.bool true)) := by
  rw [addItem, if_neg (by exact List.not_mem_nil)]

theorem addItem_value (flags : Flags) (name text : String) :
    flags.addItem (.ofSwitches switches) [] (.value name text) =
      if name ∈ switches then
        if text = "false" then .ok (flags.add [] name (.bool false))
        else if text = "true" then .ok (flags.add [] name (.bool true))
        else (flags.addWord (valueOf text)).map fun flags =>
          flags.add [] name (.bool (text ≠ ""))
      else .ok (flags.add [] name (valueOf text)) := by
  rw [addItem, if_neg (by exact List.not_mem_nil)]
  cases flags.addWord (valueOf text) <;> rfl

/-- What a record inherits is a function, apart from its parent. -/
theorem inherited_cases {name : String} (h : name ≠ Datum.parentName) :
    Datum.emptyRecord.get [] name = .absent ∧ name ∉ reservedNames ∨
      ∃ b : Shared, Datum.emptyRecord.get [] name = .shared b ∧ b.isFunction = true ∧
        (Datum.shared b).isList = false := by
  have hget : Datum.emptyRecord.get [] name =
      (((Shared.prototype .object).own? name).map .shared).getD .absent := by
    simp [Datum.get, h, Datum.emptyRecord, Datum.member?, Members.get?, Datum.sharedMember?,
      Datum.ownMember?, Shared.line]
  rw [hget, Shared.own?]
  split
  next => exact Or.inr ⟨_, rfl, rfl, rfl⟩
  next hmaker =>
  split
  next => exact Or.inr ⟨_, rfl, rfl, rfl⟩
  next hmethod =>
    have hreserved : ∀ other ∈ reservedNames, other = "constructor" ∨
        other ∈ Family.object.methods := by decide
    refine Or.inl ⟨rfl, fun hname => ?_⟩
    rcases hreserved name hname with hname | hname
    · exact hmaker hname
    · exact hmethod hname

theorem othersOf_inherited (name : String) :
    othersOf [] name (Datum.emptyRecord.get [] name) =
      if name ∈ reservedNames then .error .reservedName else .ok [] := by
  by_cases hparent : name = Datum.parentName
  · subst hparent
    rfl
  rcases inherited_cases hparent with ⟨hget, hname⟩ | ⟨b, hget, hfunction, hlist⟩
  · rw [hget, if_neg hname]
    rfl
  · rw [hget, othersOf]
    by_cases hname : name ∈ reservedNames <;> simp [Datum.isOn, hlist, hfunction, hname]

theorem othersOf_ofItems (name : String) (vs : List Datum) :
    othersOf [] name (.ofItems vs) = .ok vs := by
  have hon : (Datum.ofItems vs).isOn = true := rfl
  have hlist : (Datum.ofItems vs).isList = true := rfl
  simp [othersOf, hon, hlist, Datum.items_ofItems]

theorem globals_of_alias? {name other : String} (h : alias? name = some other) :
    name ∈ ["h", "help", "v", "version"] ∧ other ∈ ["h", "help", "v", "version"] := by
  have hglobal : ∀ m ∈ twoNames, m.1 ∈ ["h", "help", "v", "version"] ∧
      m.2 ∈ ["h", "help", "v", "version"] := by decide
  exact hglobal _ (Members.mem_of_get?_eq_some h)

theorem get_aliases (switches : List String) (name : String) :
    (Reader.ofSwitches switches).aliases.get [] name =
      ((alias? name).map fun other => .ofItems [.text other]).getD
        (Datum.emptyRecord.get [] name) := by
  by_cases hparent : name = Datum.parentName
  · subst hparent
    rfl
  · have hfound : Members.get? name (Reader.ofSwitches switches).aliases.members =
        (alias? name).map fun other => .ofItems [.text other] :=
      Members.get?_map (fun other => Datum.ofItems [.text other]) name twoNames
    have hempty : Members.get? name ([] : Members Datum) = none := rfl
    simp only [Flags.get, record, Datum.get, if_neg hparent, Datum.member?, hfound,
      Datum.emptyRecord, hempty, Option.none_or]
    cases alias? name <;> rfl

theorem share_eq (flags : Flags) (name : String) :
    share (Reader.ofSwitches switches).aliases [] flags name =
      if name ∈ reservedNames then .error .reservedName else .ok (flags.addAlias name) := by
  rw [share, get_aliases, addAlias]
  cases halias : alias? name with
  | none =>
    rw [Option.map_none, Option.getD_none, othersOf_inherited]
    split <;> rfl
  | some other =>
    have hglobal : ∀ name ∈ ["h", "help", "v", "version"], name ∉ reservedNames := by decide
    rw [if_neg (hglobal name (globals_of_alias? halias).1), Option.map_some, Option.getD_some,
      othersOf_ofItems]
    rfl

theorem foldlM_share (names : List String) (flags : Flags) :
    names.foldlM (share (Reader.ofSwitches switches).aliases []) flags =
      if names.any (· ∈ reservedNames) then .error .reservedName
      else .ok (names.foldl addAlias flags) := by
  induction names generalizing flags with
  | nil => rfl
  | cons name names ih =>
    rw [List.foldlM_cons, share_eq, List.any_cons, List.foldl_cons]
    by_cases hname : name ∈ reservedNames
    · simp only [hname, if_true, decide_true, Bool.true_or]
      rfl
    · simp only [hname, if_false, decide_false, Bool.false_or]
      exact ih _

theorem ofItems_eq (switches : List String) (is : List Item) :
    ofItems (.ofSwitches switches) [] is =
      (is.foldlM (addItem (.ofSwitches switches) []) empty).bind fun flags =>
        if flags.names.any (· ∈ reservedNames) then .error .reservedName
        else .ok flags.addAliases := by
  have hdefaults : ((Reader.ofSwitches switches).defaults.enumerated []) = [] := rfl
  rw [ofItems, readItem_eq, hdefaults]
  exact congrArg _ (funext fun flags => foldlM_share flags.names flags)

end Flags

def noOptions (rest : List String) : Datum :=
  .made none [("--", .ofItems (rest.map .text))] Datum.emptyRecord.parent

theorem Parsed.ofArgs_eq (c : Command) (args : List String) : Parsed.ofArgs c args [] =
    ((Flags.ofItems (.ofSwitches c.switches) [] (items (args.takeWhile (· ≠ "--")))).mapError
      fun e => ⟨e, []⟩).bind fun flags =>
        ((optionsOf (noOptions ((args.dropWhile (· ≠ "--")).drop 1)) flags []).mapError
          fun e => ⟨.assignment e.1, e.2⟩).map fun r => ⟨flags.words, r.1, r.2⟩ := by
  have hread (is : List Item) : (Reader.ofOptions c.allOptions [] >>= fun reader =>
      Flags.ofItems reader [] is) = Flags.ofItems (.ofSwitches c.switches) [] is := by
    rw [Reader.ofOptions_eq]
    rfl
  have hstart (rest : List String) : startOptions c.allOptions rest [] = noOptions rest := rfl
  rw [Parsed.ofArgs, hread, hstart]
  refine congrArg _ (funext fun flags => ?_)
  simp only
  cases optionsOf (noOptions ((args.dropWhile (· ≠ "--")).drop 1)) flags [] <;> rfl

end AgentPrompts.CommandLine
