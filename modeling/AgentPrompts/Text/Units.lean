/-! # UTF-16 units

Lengths and cuts of texts may count the units of UTF-16: one for a character up to
U+FFFF, two for any other.
-/

namespace AgentPrompts

def charUnits (c : Char) : Nat := if 0xFFFF < c.toNat then 2 else 1

def unitCount : List Char → Nat
  | [] => 0
  | c :: cs => charUnits c + unitCount cs

def units16 (s : String) : Nat := unitCount s.toList

/-- The characters that fit into a number of units, up to the first that does not fit. -/
def takeUnits : Nat → List Char → List Char
  | _, [] => []
  | n, c :: cs => if charUnits c ≤ n then c :: takeUnits (n - charUnits c) cs else []

end AgentPrompts
