import AgentPrompts.Datum

/-! # What was added to the shared objects

A member that is added to a shared object is inherited by all that inherit from the object, and it
is enumerated with their own members unless it takes the place of one that was there before.
-/

namespace AgentPrompts

namespace Additions

/-- What a record has under a name that it lacks itself. -/
def inherited (additions : Additions) (name : String) : Datum :=
  Datum.emptyRecord.get additions name

def isOn (additions : Additions) (name : String) : Bool := (additions.inherited name).isOn

def membersOf (additions : Additions) (b : Shared) : Members Datum :=
  let isNew (name : String) : Bool := (Datum.ownMember? [] name b).isNone
  Members.ofList ((additions.reverse.filter fun a => a.1.1 = b && isNew a.1.2).map fun a =>
    (a.1.2, a.2))

/-- The new members along a line of shared objects. A name that a nearer object has is hidden. -/
def namesAlong (additions : Additions) : List Shared → List String
  | [] => []
  | b :: bs => (additions.membersOf b).map (·.1) ++
      (additions.namesAlong bs).filter fun name => (Datum.ownMember? additions name b).isNone

end Additions

namespace Datum

/-- The names of the members that are enumerated of a datum, its own before those that it
inherits. The places of a text are left out. -/
def enumerated (additions : Additions) : Datum → List String
  | absent => []
  | bool _ => additions.namesAlong (Shared.line (.prototype .truth))
  | number _ => additions.namesAlong (Shared.line (.prototype .number))
  | text _ => additions.namesAlong (Shared.line (.prototype .text))
  | shared b => additions.namesAlong b.line
  | made length? ms p =>
    let own := (Members.listed ms).map (·.1)
    own ++ (enumerated additions p).filter fun name =>
      !own.contains name && !(length?.isSome && name = "length")

end Datum

end AgentPrompts
