import AgentPrompts.Datum

/-! # Assignments to members

A member is set in the datum itself, also when it was inherited. A path of names leads
from member to member; on its way a missing member becomes a list where an index follows,
a record elsewhere.
-/

namespace AgentPrompts

inductive AssignmentError where
  /-- Texts, numbers and truth values take no members. -/
  | noMembers (name kind shown : String)
  | fixedMember (name kind shown : String)
  | closedMember
  | invalidLength
  | rootParent
  | parentCycle
  deriving DecidableEq, Repr

def AssignmentError.message : AssignmentError → String
  | noMembers name kind shown =>
    "Cannot create property '" ++ name ++ "' on " ++ kind ++ " '" ++ shown ++ "'"
  | fixedMember name kind shown =>
    "Cannot assign to read only property '" ++ name ++ "' of " ++ kind ++ " '" ++ shown ++ "'"
  | closedMember =>
    "'caller', 'callee', and 'arguments' properties may not be accessed on strict mode " ++
      "functions or the arguments objects for calls to them"
  | invalidLength => "Invalid array length"
  | rootParent =>
    "Immutable prototype object 'Object.prototype' cannot have their prototype set"
  | parentCycle => "Cyclic __proto__ value"

namespace Datum

def lengthOf? : Datum → Option Nat
  | number x => x.nat?.filter (· ≤ Members.indexBound)
  | bool b => some b.toNat
  | _ => none

def sharedLine : Datum → List Shared
  | made _ _ p => sharedLine p
  | shared b => b.line
  | _ => []

/-- Replaces the parent of an object. What is no object is not taken as a parent, and a
shared object keeps the one that it has. -/
def setParent (v target : Datum) : Except AssignmentError Datum :=
  match target, v.isObject with
  | made length? ms _, true => .ok (made length? ms v)
  | shared b, true =>
    if b.parent?.isNone then .error .rootParent
    else if b ∈ v.sharedLine then .error .parentCycle
    else .ok (shared b)
  | target, _ => .ok target

def setNamed (name : String) (v : Datum) (n : Nat) (ms : List (String × Datum)) (p : Datum) :
    Except AssignmentError Datum :=
  if name = "length" then
    match lengthOf? v with
    | some m =>
      let kept := ms.filter fun member =>
        match Members.index? member.1 with
        | some i => i < m
        | none => true
      .ok (made (some m) kept p)
    | none => .error .invalidLength
  else .ok (made (some n) (Members.set name v ms) p)

def isPlace (s name : String) : Bool :=
  match Members.index? name with
  | some i => i < units16 s
  | none => name = "length"

/-- Sets a member of a datum, or adds it to a shared object. -/
def set (name : String) (v : Datum) (additions : Additions) (target : Datum) :
    Except AssignmentError (Datum × Additions) :=
  if name = parentName then (setParent v target).map (·, additions)
  else
    match target with
    | absent => .error (.noMembers name target.kind "undefined")
    | bool b => .error (.noMembers name target.kind (if b then "true" else "false"))
    | number x => .error (.noMembers name target.kind x.text)
    | text s =>
      .error (if isPlace s name then .fixedMember name target.kind s
        else .noMembers name target.kind s)
    | shared b =>
      if b.isClosed name then .error .closedMember
      else if b.isFixed name then .error (.fixedMember name target.kind b.shown)
      else if b = .prototype .list ∧ name = "length" ∧ (lengthOf? v).isNone then
        .error .invalidLength
      else .ok (target, ((b, name), v) :: additions)
    | made none ms p => .ok (made none (Members.set name v ms) p, additions)
    | made (some n) ms p =>
      match Members.index? name with
      | some i => .ok (made (some (max n (i + 1))) (Members.set name v ms) p, additions)
      | none => (setNamed name v n ms p).map (·, additions)

/-- The container that a name needs: a list for a name that reads as a number above -1. -/
def containerFor (name : String) : Datum :=
  match Number.ofText name with
  | .finite q => if -1 < q then ofItems [] else emptyRecord
  | .infinite false => ofItems []
  | _ => emptyRecord

/-- Sets the member to which a path of names leads. A record or list on the way takes the
place of what it was; a shared object stays where it is. A failure keeps what was added to shared
objects before it. -/
def assign (v : Datum) : List String → Additions → Datum →
    Except (AssignmentError × Additions) (Datum × Additions)
  | [], additions, target => .ok (target, additions)
  | [name], additions, target => (set name v additions target).mapError (·, additions)
  | name :: next :: names, additions, target => do
    let found := target.get additions name
    let inner := if found.isAbsent then containerFor next else found
    let (target, additions) ← (set name inner additions target).mapError (·, additions)
    let (changed, additions) ← assign v (next :: names) additions inner
    if inner.isMade then (set name changed additions target).mapError (·, additions)
    else pure (target, additions)

end Datum

end AgentPrompts
