import AgentPrompts.Json
import AgentPrompts.Number.Numeral

/-! # JSON tokens

A text is cut into tokens one character at a time. Blanks are space, tab, line feed and
carriage return; a numeral and the words `true`, `false` and `null` last as long as
letters, digits, signs and points follow.
-/

namespace AgentPrompts.Json

inductive Token where
  | listStart
  | listEnd
  | recordStart
  | recordEnd
  | comma
  | colon
  | scalar (value : Json)

namespace Token

def isSpace (c : Char) : Bool := c = ' ' || c = '\t' || c = '\n' || c = '\r'

/-- The characters of numerals and of `true`, `false` and `null`. -/
def isBare (c : Char) : Bool := c.isAlphanum || c = '+' || c = '-' || c = '.'

/-- A numeral without superfluous zeros in front, with digits on both sides of a point. -/
def number? (cs : List Char) : Option Number :=
  let (negative, cs) := match cs with
    | '-' :: ds => (true, ds)
    | _ => (false, cs)
  let (whole, rest) := cs.span Char.isDigit
  let wholeOk := match whole with
    | [] => false
    | '0' :: ds => ds.isEmpty
    | _ => true
  let pointOk := match rest with
    | '.' :: d :: _ => d.isDigit
    | ['.'] => false
    | _ => true
  if wholeOk && pointOk then (Numeral.decimal? negative cs).map Decimal.toNumber else none

def bare? (cs : List Char) : Option Json :=
  if cs = ['t', 'r', 'u', 'e'] then some (.bool true)
  else if cs = ['f', 'a', 'l', 's', 'e'] then some (.bool false)
  else if cs = ['n', 'u', 'l', 'l'] then some .null
  else (number? cs).map .number

/-- The code that a character after a backslash stands for, `u` excepted. -/
def escapeCode? (c : Char) : Option Nat :=
  match c with
  | '"' => some 0x22
  | '\\' => some 0x5C
  | '/' => some 0x2F
  | 'b' => some 0x08
  | 'f' => some 0x0C
  | 'n' => some 0x0A
  | 'r' => some 0x0D
  | 't' => some 0x09
  | _ => none

/-- The characters of a list of codes. Two surrogate codes in a row that form a pair
are one character; any other surrogate is replaced by U+FFFD. -/
def assemble : List Nat → List Char
  | [] => []
  | u :: us =>
    if 0xD800 ≤ u ∧ u < 0xDC00 then
      match us with
      | [] => ['\uFFFD']
      | v :: vs =>
        if 0xDC00 ≤ v ∧ v < 0xE000 then
          Char.ofNat (0x10000 + (u - 0xD800) * 0x400 + (v - 0xDC00)) :: assemble vs
        else '\uFFFD' :: assemble (v :: vs)
    else if 0xDC00 ≤ u ∧ u < 0xE000 then '\uFFFD' :: assemble us
    else Char.ofNat u :: assemble us

/-- What the characters since the last token belong to; they are kept latest first. -/
inductive Pending where
  | nothing
  | bare (chars : List Char)
  | text (codes : List Nat)
  | escape (codes : List Nat)
  | hex (missing value : Nat) (codes : List Nat)

structure Scan where
  pending : Pending
  tokens : List Token

namespace Scan

def emit (s : Scan) (t : Token) : Scan := ⟨.nothing, t :: s.tokens⟩

def close? (s : Scan) : Option Scan :=
  match s.pending with
  | .nothing => some s
  | .bare cs => (bare? cs.reverse).map fun v => s.emit (.scalar v)
  | _ => none

def begin? (s : Scan) (c : Char) : Option Scan :=
  if isSpace c then some s
  else if isBare c then some { s with pending := .bare [c] }
  else
    match c with
    | '"' => some { s with pending := .text [] }
    | '[' => some (s.emit .listStart)
    | ']' => some (s.emit .listEnd)
    | '{' => some (s.emit .recordStart)
    | '}' => some (s.emit .recordEnd)
    | ',' => some (s.emit .comma)
    | ':' => some (s.emit .colon)
    | _ => none

def step? (s : Scan) (c : Char) : Option Scan :=
  match s.pending with
  | .nothing => s.begin? c
  | .bare cs =>
    if isBare c then some { s with pending := .bare (c :: cs) }
    else s.close?.bind (·.begin? c)
  | .text us =>
    if c = '"' then some (s.emit (.scalar (.text (String.ofList (assemble us.reverse)))))
    else if c = '\\' then some { s with pending := .escape us }
    else if c.toNat < 0x20 then none
    else some { s with pending := .text (c.toNat :: us) }
  | .escape us =>
    if c = 'u' then some { s with pending := .hex 4 0 us }
    else (escapeCode? c).map fun u => { s with pending := .text (u :: us) }
  | .hex missing value us =>
    (Numeral.digitValue? c).map fun d =>
      if missing ≤ 1 then { s with pending := .text ((16 * value + d) :: us) }
      else { s with pending := .hex (missing - 1) (16 * value + d) us }

end Scan

def ofChars? (cs : List Char) : Option (List Token) :=
  ((cs.foldlM Scan.step? ⟨.nothing, []⟩).bind Scan.close?).map fun s => s.tokens.reverse

end Token

end AgentPrompts.Json
