/-! # Members of records

A record holds named values, one to a name. Names that are array indices are listed
first, in ascending order; the others follow in the order in which they were added.
-/

namespace AgentPrompts

abbrev Members (α : Type) := List (String × α)

namespace Members

variable {α : Type}

def get? (name : String) (ms : Members α) : Option α := ms.lookup name

def has (name : String) (ms : Members α) : Bool := ms.any (·.1 == name)

/-- Gives a name its value, at the place of the name or else at the end. -/
def set (name : String) (value : α) : Members α → Members α
  | [] => [(name, value)]
  | m :: ms => if m.1 = name then (name, value) :: ms else m :: set name value ms

theorem lookup_member (name : String) (m : String × α) (ms : Members α) :
    List.lookup name (m :: ms) = if name = m.1 then some m.2 else List.lookup name ms := by
  obtain ⟨key, value⟩ := m
  rw [List.lookup_cons]
  by_cases h : name = key
  · simp [h]
  · simp [beq_false_of_ne h, h]

theorem get?_set (name other : String) (value : α) (ms : Members α) :
    get? other (ms.set name value) = if other = name then some value else get? other ms := by
  simp only [get?]
  induction ms with
  | nil => simp [set, lookup_member]
  | cons m ms ih => by_cases hm : m.1 = name <;> simp [set, hm, lookup_member, ih] <;> grind

/-- The greatest array index is one less: `2 ^ 32 - 1`. -/
def indexBound : Nat := 4294967295

/-- The array index that a name writes in canonical digits. -/
def index? (name : String) : Option Nat :=
  let cs := name.toList
  let n := Nat.ofDigitChars 10 cs 0
  if cs.length ≤ 10 ∧ cs.all Char.isDigit ∧ Nat.toDigits 10 n = cs ∧ n < indexBound then some n
  else none

def insertIndexed (i : Nat) (m : String × α) : List (Nat × String × α) → List (Nat × String × α)
  | [] => [(i, m)]
  | n :: ns => if i < n.1 then (i, m) :: n :: ns else n :: insertIndexed i m ns

def listed (ms : Members α) : Members α :=
  let indexed := ms.foldl (fun acc m =>
    match index? m.1 with
    | some i => insertIndexed i m acc
    | none => acc) []
  indexed.map (·.2) ++ ms.filter fun m => (index? m.1).isNone

/-- The members that a list of assignments leaves, as listed. -/
def ofList (assignments : List (String × α)) : Members α :=
  listed (assignments.foldl (fun ms a => ms.set a.1 a.2) [])

end Members

end AgentPrompts
