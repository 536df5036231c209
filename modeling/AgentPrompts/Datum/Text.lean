import AgentPrompts.Datum
import AgentPrompts.Value

/-! # Text of data

The text of a list joins the texts of its items by commas; items that are not there are
empty. A record that inherits from a list is joined in the same way, any other record has
one text for all. Members named for these rules take their place, and a rule that is not a
function gives no text.
-/

namespace AgentPrompts.Datum

structure Cell where
  datum : Datum
  text : Except TextError String

def lengthCell : Option Nat → List (String × Cell)
  | some n => [("length", ⟨number (.ofNat n), .ok (Number.ofNat n).text⟩)]
  | none => []

/-- The greatest number of UTF-16 units in a text. -/
def maxTextUnits : Nat := 536870888

def joinLength (c : Cell) : Except TextError Nat := do
  let x : Number ← match c.datum with
    | absent => pure .nan
    | bool b => pure (.ofNat b.toNat)
    | number x => pure x
    | text s => pure (Number.ofText s)
    | _ => Number.ofText <$> c.text
  pure (match x with
    | .finite q => q.floor.toNat
    | .infinite false => maxTextUnits + 2
    | _ => 0)

def joined (find : String → Option Cell) : Except TextError String := do
  let n ← match find "length" with
    | some c => joinLength c
    | none => pure 0
  if maxTextUnits + 1 < n then throw .tooLong
  let texts ← (List.range n).mapM fun i =>
    match find (indexName i) with
    | none | some ⟨absent, _⟩ => pure ""
    | some c => c.text
  pure (String.intercalate "," texts)

def Cell.isCallable (c : Cell) : Bool :=
  match c.datum with
  | shared b => b.isFunction
  | _ => false

/-- Whether a member is the rule for the texts of lists. -/
def Cell.isListRule (c : Cell) : Bool :=
  match c.datum with
  | shared (.method f _) => f = .list
  | _ => false

/-- The text of an object, by the rule for texts that is found among its members. -/
def madeText (isList : Bool) (find : String → Option Cell) : Except TextError String :=
  match find "toString" with
  | none => .error .hidden
  | some rule =>
    if ¬ rule.isCallable then .error .hidden
    else if rule.isListRule ∧ (find "join").any Cell.isCallable then joined find
    else .ok (if isList then "[object Array]" else "[object Object]")

def root? : Datum → Option Shared
  | shared b => some b
  | made _ _ p => root? p
  | _ => none

section Text

variable (inherited : String → Shared → Option Cell)

mutual

/-- The text of a datum, for what the shared objects have under the names of these rules. -/
def asTextWith : Datum → Except TextError String
  | absent => .ok "undefined"
  | bool b => .ok (if b then "true" else "false")
  | number x => .ok x.text
  | text s => .ok s
  | shared b => if (inherited "toString" b).any Cell.isCallable then .ok b.text else .error .hidden
  | made length? ms p =>
    let cells := lengthCell length? ++ cellsOf ms ++ inheritedCells p
    madeText length?.isSome fun name =>
      (cells.lookup name).or ((root? p).bind (inherited name))

def inheritedCells : Datum → List (String × Cell)
  | made length? ms p => lengthCell length? ++ cellsOf ms ++ inheritedCells p
  | _ => []

def cellsOf : List (String × Datum) → List (String × Cell)
  | [] => []
  | (name, v) :: ms => (name, ⟨v, asTextWith v⟩) :: cellsOf ms

end

end Text

/-- The text of a datum. What was added to the shared objects is joined as if nothing else had
been added. -/
def asText (additions : Additions) (d : Datum) : Except TextError String :=
  let unchanged (name : String) (b : Shared) : Option Cell :=
    (sharedMember? [] name b).map fun v => ⟨v, .ok ""⟩
  d.asTextWith fun name b =>
    (sharedMember? additions name b).map fun v => ⟨v, v.asTextWith unchanged⟩

def toValue (additions : Additions) : Datum → Value
  | absent => .absent
  | bool b => .bool b
  | number x => .number x
  | text s => .text s
  | d => .container (d.asText additions)

end AgentPrompts.Datum
