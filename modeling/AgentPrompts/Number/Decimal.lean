import AgentPrompts.Number

/-! # Decimal text of numbers

A number is written with the fewest digits that read back as the same number, in
positional notation from `1e-6` up to `1e21`. Natural numbers below `2 ^ 53` are
written digit by digit. `Decimal` is the exact value that a numeral states.
-/

namespace AgentPrompts

/-- The value `± digits · 10 ^ exponent`. -/
structure Decimal where
  negative : Bool
  digits : Nat
  exponent : Int
  deriving DecidableEq, Repr

namespace Decimal

def digitCount (n : Nat) : Nat := (Nat.toDigits 10 n).length

/-- The binary64 number nearest to the decimal. A decimal far outside the range is not
computed: from `1e310` on it is infinite, below `1e-330` it is zero. -/
def toNumber (d : Decimal) : Number :=
  let magnitude : Int := digitCount d.digits + d.exponent
  if d.digits = 0 ∨ magnitude < -330 then .zero
  else if 310 < magnitude then .infinite d.negative
  else
    let value := (d.digits : Rat) * (10 : Rat) ^ d.exponent
    Number.nearest (if d.negative then -value else value)

def decimalExponent (q : Rat) : Int :=
  let e : Int := (digitCount q.num.natAbs : Int) - digitCount q.den
  if (10 : Rat) ^ e ≤ q then e else e - 1

/-- The neighbours of `q` on the grid of the multiples of `10 ^ exponent`, nearest first;
of two neighbours at the same distance the even one comes first. -/
def neighbours (q : Rat) (exponent : Int) : List Decimal :=
  let scaled := q / (10 : Rat) ^ exponent
  let low := scaled.floor.toNat
  let down := scaled - low
  let lowFirst := if down = 1 / 2 then low % 2 = 0 else down < 1 / 2
  let both := [low, low + 1].map fun n => ⟨false, n, exponent⟩
  if lowFirst then both else both.reverse

/-- The decimal with the fewest digits that reads back as the positive number `q`, and
the nearest of those. Seventeen digits always suffice. -/
def shortest (q : Rat) : Decimal :=
  let e := decimalExponent q
  let grids := (List.range 17).map fun (n : Nat) => e - n
  let readsBack (d : Decimal) : Bool := d.toNumber == .finite q
  (grids.findSome? fun g => (neighbours q g).find? readsBack).getD ⟨false, 0, 0⟩

def trimmed (d : Decimal) : List Char × Int :=
  let cs := (Nat.toDigits 10 d.digits).reverse
  let zeros := (cs.takeWhile (· = '0')).length
  ((cs.drop zeros).reverse, d.exponent + zeros)

def signed (e : Int) : List Char :=
  (if e < 0 then '-' else '+') :: Nat.toDigits 10 e.natAbs

/-- Positional notation from `1e-6` up to `1e21`, one digit before the point and an
exponent elsewhere. -/
def layout (digits : List Char) (exponent : Int) : List Char :=
  let point : Int := digits.length + exponent
  if 0 ≤ exponent ∧ point ≤ 21 then digits ++ List.replicate exponent.toNat '0'
  else if 0 < point ∧ point ≤ 21 then
    digits.take point.toNat ++ '.' :: digits.drop point.toNat
  else if -6 < point ∧ point ≤ 0 then
    '0' :: '.' :: (List.replicate (-point).toNat '0' ++ digits)
  else
    match digits with
    | [] => []
    | [d] => d :: 'e' :: signed (point - 1)
    | d :: ds => d :: '.' :: (ds ++ 'e' :: signed (point - 1))

end Decimal

namespace Number

/-- Below this bound, which is `2 ^ 53`, every natural number is a binary64 number. -/
def exactBound : Nat := 9007199254740992

def magnitudeText (q : Rat) : List Char :=
  if q.den = 1 ∧ q.num < exactBound then Nat.toDigits 10 q.num.toNat
  else
    let (digits, exponent) := (Decimal.shortest q).trimmed
    Decimal.layout digits exponent

def text : Number → String
  | nan => "NaN"
  | infinite false => "Infinity"
  | infinite true => "-Infinity"
  | finite q => String.ofList (if q < 0 then '-' :: magnitudeText (-q) else magnitudeText q)

end Number

end AgentPrompts
