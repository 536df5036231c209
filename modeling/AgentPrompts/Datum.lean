import AgentPrompts.Datum.Shared
import AgentPrompts.Members
import AgentPrompts.Number.Numeral
import AgentPrompts.Text.Units

/-! # Data with members

The options of a command line are data. A record or a list is made by the command line: it
has members of its own and inherits those of its parent. The parents end at the shared
objects, to which members may be added. A list also has a length, and its items are the
members that are named by their indices; an item that was never given is not there.
-/

namespace AgentPrompts

inductive Datum where
  | absent
  | bool (value : Bool)
  | number (value : Number)
  | text (value : String)
  | shared (object : Shared)
  /-- A list when there is a length, else a record. -/
  | made (length? : Option Nat) (members : List (String × Datum)) (parent : Datum)
  deriving Inhabited

/-- The members that have been added to shared objects. -/
abbrev Additions := List ((Shared × String) × Datum)

namespace Datum

def parentName : String := "__proto__"

def emptyRecord : Datum := made none [] (shared (.prototype .object))

def indexName (i : Nat) : String := String.ofList (Nat.toDigits 10 i)

theorem indexName_inj {i j : Nat} : indexName i = indexName j ↔ i = j := by
  constructor
  · intro h
    have h := congrArg (fun s => Nat.ofDigitChars 10 s.toList 0) h
    simpa [indexName, Nat.ofDigitChars_toDigits] using h
  · rintro rfl
    rfl

def ofItems (items : List Datum) : Datum :=
  made (some items.length) (items.zipIdx.map fun m => (indexName m.2, m.1))
    (shared (.prototype .list))

def isList : Datum → Bool
  | made (some _) _ _ => true
  | shared (.prototype .list) => true
  | _ => false

def isObject : Datum → Bool
  | shared _ => true
  | made .. => true
  | _ => false

def isMade : Datum → Bool
  | made .. => true
  | _ => false

def isAbsent : Datum → Bool
  | absent => true
  | _ => false

def isOn : Datum → Bool
  | absent => false
  | bool b => b
  | number x => x.isOn
  | text s => s ≠ ""
  | shared _ => true
  | made .. => true

def kind : Datum → String
  | absent => "undefined"
  | bool _ => "boolean"
  | number _ => "number"
  | text _ => "string"
  | shared b => if b.isFunction then "function" else "object"
  | made .. => "object"

def parent : Datum → Datum
  | absent => absent
  | bool _ => shared (.prototype .truth)
  | number _ => shared (.prototype .number)
  | text _ => shared (.prototype .text)
  | shared b => (b.parent?.map shared).getD absent
  | made _ _ p => p

def ownMember? (additions : Additions) (name : String) (b : Shared) : Option Datum :=
  match additions.lookup (b, name) with
  | some v => some v
  | none =>
    if b = .prototype .list ∧ name = "length" then some (number .zero)
    else (b.own? name).map shared

/-- A member of a shared object, its own or inherited. -/
def sharedMember? (additions : Additions) (name : String) (b : Shared) : Option Datum :=
  b.line.findSome? (ownMember? additions name)

/-- A member that a datum has itself or inherits. The characters of a text and the fixed
members of shared objects are left out, as nothing can be set behind them. -/
def member? (additions : Additions) (name : String) : Datum → Option Datum
  | absent => none
  | bool _ => sharedMember? additions name (.prototype .truth)
  | number _ => sharedMember? additions name (.prototype .number)
  | text s =>
    if name = "length" then some (number (.ofNat (units16 s)))
    else sharedMember? additions name (.prototype .text)
  | shared b => sharedMember? additions name b
  | made length? ms p =>
    let found := (Members.get? name ms).or (member? additions name p)
    match length? with
    | some n => if name = "length" then some (number (.ofNat n)) else found
    | none => found

def get (additions : Additions) (name : String) (d : Datum) : Datum :=
  if name = parentName then d.parent else (d.member? additions name).getD absent

def items : Datum → List Datum
  | made (some n) ms _ =>
    (List.range n).map fun i => (Members.get? (indexName i) ms).getD absent
  | _ => []

def push (d v : Datum) : Datum :=
  match d with
  | made (some n) ms p => made (some (n + 1)) (ms ++ [(indexName n, v)]) p
  | d => d

theorem push_ofItems (vs : List Datum) (v : Datum) :
    (ofItems vs).push v = ofItems (vs ++ [v]) := by
  simp [ofItems, push, List.zipIdx_append]

theorem get?_numbered (vs : List Datum) (start i : Nat) :
    Members.get? (indexName (start + i))
      ((vs.zipIdx start).map fun m => (indexName m.2, m.1)) = vs[i]? := by
  induction vs generalizing start i with
  | nil => simp [Members.get?]
  | cons v vs ih =>
    cases i with
    | zero => simp [Members.get?]
    | succ i =>
      have hi : start + 1 + i ≠ start := by omega
      have ih := ih (start + 1) i
      simp only [Members.get?] at ih
      simp [Members.get?, Members.lookup_member, indexName_inj, hi, ih,
        show start + (i + 1) = start + 1 + i by omega]

theorem items_ofItems (vs : List Datum) : (ofItems vs).items = vs := by
  have h (i : Nat) := get?_numbered vs 0 i
  simp only [Nat.zero_add] at h
  simp only [ofItems, items, h]
  apply List.ext_getElem <;> simp +contextual

end Datum

end AgentPrompts
