import AgentPrompts.Number.Decimal
import AgentPrompts.Text.Blank

/-! # Reading numerals

A numeral is a decimal with an optional sign, point and exponent, the word `Infinity`,
or an unsigned numeral in base 16, 8 or 2 behind `0x`, `0o` or `0b`. Blanks around it
do not count, and blank text reads as zero.
-/

namespace AgentPrompts

namespace Numeral

def digitValue? (c : Char) : Option Nat :=
  if '0' ≤ c ∧ c ≤ '9' then some (c.toNat - '0'.toNat)
  else if 'a' ≤ c ∧ c ≤ 'f' then some (c.toNat - 'a'.toNat + 10)
  else if 'A' ≤ c ∧ c ≤ 'F' then some (c.toNat - 'A'.toNat + 10)
  else none

/-- The natural number that digits of one base state, most significant first. -/
def natural? (base : Nat) (cs : List Char) : Option Nat :=
  if cs.isEmpty then none
  else cs.foldlM (fun n c => do
    let d ← digitValue? c
    if d < base then some (base * n + d) else none) 0

/-- What follows the digits of a decimal: nothing, or an exponent. -/
def exponent? : List Char → Option Int
  | [] => some 0
  | c :: cs =>
    if c = 'e' ∨ c = 'E' then
      match cs with
      | '+' :: ds => (natural? 10 ds).map Int.ofNat
      | '-' :: ds => (natural? 10 ds).map fun n => -(n : Int)
      | ds => (natural? 10 ds).map Int.ofNat
    else none

/-- Digits, an optional point with further digits, an optional exponent. At least one
digit stands before or after the point. -/
def decimal? (negative : Bool) (cs : List Char) : Option Decimal :=
  let (whole, rest) := cs.span Char.isDigit
  let (fraction, rest) := match rest with
    | '.' :: ds => ds.span Char.isDigit
    | _ => ([], rest)
  if whole.isEmpty && fraction.isEmpty then none
  else do
    let e ← exponent? rest
    some ⟨negative, Nat.ofDigitChars 10 (whole ++ fraction) 0, e - fraction.length⟩

def unsigned (negative : Bool) (cs : List Char) : Number :=
  if cs = "Infinity".toList then .infinite negative
  else ((decimal? negative cs).map Decimal.toNumber).getD .nan

def inBase (base : Nat) (cs : List Char) : Number :=
  ((natural? base cs).map fun n => Decimal.toNumber ⟨false, n, 0⟩).getD .nan

def read : List Char → Number
  | [] => .zero
  | '+' :: cs => unsigned false cs
  | '-' :: cs => unsigned true cs
  | '0' :: 'x' :: cs => inBase 16 cs
  | '0' :: 'X' :: cs => inBase 16 cs
  | '0' :: 'o' :: cs => inBase 8 cs
  | '0' :: 'O' :: cs => inBase 8 cs
  | '0' :: 'b' :: cs => inBase 2 cs
  | '0' :: 'B' :: cs => inBase 2 cs
  | cs => unsigned false cs

end Numeral

def Number.ofText (s : String) : Number := Numeral.read (trimBlanks s.toList)

end AgentPrompts
