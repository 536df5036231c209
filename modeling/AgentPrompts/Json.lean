import AgentPrompts.Number
import AgentPrompts.Members

/-! # JSON documents

The members of a record keep their order. Documents that were read have one member to a
name, listed as `Members.listed` says.
-/

namespace AgentPrompts

inductive Json where
  | null
  | bool (value : Bool)
  | number (value : Number)
  | text (value : String)
  | list (items : List Json)
  | record (members : List (String × Json))
  deriving Inhabited

namespace Json

def ofNat (n : Nat) : Json := .number (.ofNat n)

def texts (ss : List String) : Json := .list (ss.map .text)

def member? (name : String) : Json → Option Json
  | .record ms => Members.get? name ms
  | _ => none

end Json

end AgentPrompts
