import AgentPrompts.Json
import AgentPrompts.Number.Decimal

/-! # Values of settings and options

What a configuration file, a caller or a command line gives for a setting may have any
shape. Messages show such a value by its text.
-/

namespace AgentPrompts

inductive TextError where
  | hidden
  | tooLong
  deriving DecidableEq, Repr

namespace TextError

def name : TextError → String
  | hidden => "TypeError"
  | tooLong => "RangeError"

def message : TextError → String
  | hidden => "Cannot convert object to primitive value"
  | tooLong => "Invalid string length"

end TextError

inductive Value where
  | absent
  | null
  | bool (value : Bool)
  | number (value : Number)
  | text (value : String)
  | list (items : List Value)
  | record (members : List (String × Value))
  /-- A list or record of which only the text is known. -/
  | container (shown : Except TextError String)
  deriving Inhabited

namespace Value

def isAbsent : Value → Bool
  | absent => true
  | _ => false

def isOn : Value → Bool
  | absent | null => false
  | bool b => b
  | number x => x.isOn
  | text s => s ≠ ""
  | list _ | record _ | container _ => true

def kind : Value → String
  | absent => "undefined"
  | null => "null"
  | bool _ => "boolean"
  | number .nan => "nan"
  | number _ => "number"
  | text _ => "string"
  | list _ => "array"
  | record _ | container _ => "object"

mutual

/-- The text of a value. The items of a list are joined by commas, items without a value
are empty. A record whose member `toString` hides its text has none. -/
def asText : Value → Except TextError String
  | absent => .ok "undefined"
  | null => .ok "null"
  | bool true => .ok "true"
  | bool false => .ok "false"
  | number x => .ok x.text
  | text s => .ok s
  | list items => (itemTexts items).map (String.intercalate ",")
  | record ms => if Members.has "toString" ms then .error .hidden else .ok "[object Object]"
  | container shown => shown

def itemTexts : List Value → Except TextError (List String)
  | [] => .ok []
  | absent :: vs => (itemTexts vs).map ("" :: ·)
  | null :: vs => (itemTexts vs).map ("" :: ·)
  | v :: vs => do
    let t ← asText v
    let ts ← itemTexts vs
    .ok (t :: ts)

end

mutual

def ofJson : Json → Value
  | .null => null
  | .bool b => bool b
  | .number x => number x
  | .text s => text s
  | .list vs => list (ofJsonItems vs)
  | .record ms => record (ofJsonMembers ms)

def ofJsonItems : List Json → List Value
  | [] => []
  | v :: vs => ofJson v :: ofJsonItems vs

def ofJsonMembers : List (String × Json) → List (String × Value)
  | [] => []
  | (name, v) :: ms => (name, ofJson v) :: ofJsonMembers ms

end

def member (name : String) : Value → Value
  | record ms => (Members.get? name ms).getD absent
  | _ => absent

end Value

end AgentPrompts
