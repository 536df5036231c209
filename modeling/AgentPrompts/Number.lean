/-! # Numbers

Counts and agent numbers are binary64 numbers: rationals with a 53-bit significand,
two infinities and a value that is no number. Zero carries no sign, since nothing
that is decided or written tells two zeros apart.
-/

namespace AgentPrompts

inductive Number where
  | nan
  | infinite (negative : Bool)
  | finite (value : Rat)
  deriving DecidableEq, Repr

namespace Number

instance : Inhabited Number := ⟨nan⟩

def ofNat (n : Nat) : Number := finite n

def zero : Number := finite 0

def neg : Number → Number
  | nan => nan
  | infinite negative => infinite !negative
  | finite q => finite (-q)

/-- The greatest exponent `e` with `2 ^ e ≤ q`, for a positive `q`. -/
def binaryExponent (q : Rat) : Int :=
  let e : Int := (Nat.log2 q.num.natAbs : Int) - Nat.log2 q.den
  if (2 : Rat) ^ e ≤ q then e else e - 1

/-- The nearest integer; a half goes to the even neighbour. -/
def roundEven (q : Rat) : Int :=
  let down := q.floor
  let rest := q - down
  if rest < 1 / 2 then down
  else if 1 / 2 < rest then down + 1
  else if down % 2 = 0 then down
  else down + 1

/-- The binary64 number nearest to a positive rational: the significand is rounded at
the last of 53 bits, or at `2 ^ (-1074)` for the smallest numbers. -/
def nearestPositive (q : Rat) : Number :=
  let unit := (2 : Rat) ^ max (binaryExponent q - 52) (-1074)
  let value := roundEven (q / unit) * unit
  if (2 : Rat) ^ (1024 : Int) ≤ value then infinite false else finite value

def nearest (q : Rat) : Number :=
  if q = 0 then zero
  else if q < 0 then (nearestPositive (-q)).neg
  else nearestPositive q

def nat? : Number → Option Nat
  | finite q => if q.den = 1 ∧ 0 ≤ q.num then some q.num.toNat else none
  | _ => none

/-- The agents that a count stands for: `1, 2, …` as long as they are no greater than the count. -/
def agents : Number → List Nat
  | finite q => (List.range q.floor.toNat).map (· + 1)
  | _ => []

def isOn : Number → Bool
  | nan => false
  | infinite _ => true
  | finite q => q ≠ 0

end Number

end AgentPrompts
