import AgentPrompts.Json.Token

/-! # Reading JSON

Tokens are read with a stack of the containers that are still open. The text must be a
document and nothing else. Of two members with one name the later counts.
-/

namespace AgentPrompts.Json

/-- A container that is still open: what it holds so far, latest first, and the name of
the member whose value comes next. -/
inductive Frame where
  | list (items : List Json)
  | record (members : List (String × Json)) (name : String)

mutual

def readValue? (stack : List Frame) : List Token → Option Json
  | .scalar v :: ts => readAfter? v stack ts
  | .listStart :: .listEnd :: ts => readAfter? (.list []) stack ts
  | .listStart :: ts => readValue? (.list [] :: stack) ts
  | .recordStart :: .recordEnd :: ts => readAfter? (.record []) stack ts
  | .recordStart :: .scalar (.text name) :: .colon :: ts =>
    readValue? (.record [] name :: stack) ts
  | _ => none

def readAfter? (v : Json) : List Frame → List Token → Option Json
  | [], [] => some v
  | .list vs :: stack, .comma :: ts => readValue? (.list (v :: vs) :: stack) ts
  | .list vs :: stack, .listEnd :: ts => readAfter? (.list (v :: vs).reverse) stack ts
  | .record ms name :: stack, .comma :: .scalar (.text next) :: .colon :: ts =>
    readValue? (.record ((name, v) :: ms) next :: stack) ts
  | .record ms name :: stack, .recordEnd :: ts =>
    readAfter? (.record (Members.ofList ((name, v) :: ms).reverse)) stack ts
  | _, _ => none

end

def parse? (s : String) : Option Json := (Token.ofChars? s.toList).bind (readValue? [])

end AgentPrompts.Json
