import AgentPrompts.Json
import AgentPrompts.Number.Decimal
import AgentPrompts.Text.Quoted

/-! # Printing JSON

A document is printed on one line without blanks, or with each item and each member on
a line of its own, indented by two more spaces at each level. A number that is not
finite is printed as `null`.
-/

namespace AgentPrompts.Json

def deeper (indent : Option Nat) : Option Nat := indent.map (· + 2)

/-- What separates the lines of a container; nothing when all stands on one line. -/
def lineBreak : Option Nat → List Char
  | none => []
  | some n => '\n' :: List.replicate n ' '

def colon : Option Nat → List Char
  | none => [':']
  | some _ => [':', ' ']

def numberText : Number → List Char
  | .finite q => (Number.finite q).text.toList
  | _ => ['n', 'u', 'l', 'l']

mutual

/-- The text of a document whose surrounding lines have the given indentation. -/
def render (indent : Option Nat) : Json → List Char
  | .null => ['n', 'u', 'l', 'l']
  | .bool true => ['t', 'r', 'u', 'e']
  | .bool false => ['f', 'a', 'l', 's', 'e']
  | .number x => numberText x
  | .text s => Quoted.encode s.toList
  | .list [] => ['[', ']']
  | .list (v :: vs) =>
    '[' :: (lineBreak (deeper indent) ++ render (deeper indent) v ++
      renderItems (deeper indent) vs ++ lineBreak indent ++ [']'])
  | .record [] => ['{', '}']
  | .record ((name, v) :: ms) =>
    '{' :: (lineBreak (deeper indent) ++ Quoted.encode name.toList ++ colon indent ++
      render (deeper indent) v ++ renderMembers (deeper indent) ms ++ lineBreak indent ++ ['}'])

def renderItems (indent : Option Nat) : List Json → List Char
  | [] => []
  | v :: vs => ',' :: (lineBreak indent ++ render indent v ++ renderItems indent vs)

def renderMembers (indent : Option Nat) : List (String × Json) → List Char
  | [] => []
  | (name, v) :: ms =>
    ',' :: (lineBreak indent ++ Quoted.encode name.toList ++ colon indent ++
      render indent v ++ renderMembers indent ms)

end

def compact (v : Json) : String := String.ofList (render none v)

def pretty (v : Json) : String := String.ofList (render (some 0) v)

end AgentPrompts.Json
