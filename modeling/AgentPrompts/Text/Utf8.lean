/-! # UTF-8

File contents are lists of bytes. Reading replaces each ill-formed sequence, taken as
the longest beginning of a well-formed one, by U+FFFD, and keeps a byte order mark.
-/

namespace AgentPrompts.Utf8

def encode (s : String) : List UInt8 := s.toList.flatMap String.utf8EncodeChar

/-- A byte from 80 to BF. -/
def isContinuation (b : UInt8) : Bool := 0x80 ≤ b && b ≤ 0xBF

/-- Whether a byte may be the second after a first byte of a sequence of three or four
bytes: no overlong form, no surrogate and nothing beyond U+10FFFF begins so. -/
def isSecond (first second : UInt8) : Bool :=
  if first = 0xE0 then 0xA0 ≤ second && second ≤ 0xBF
  else if first = 0xED then 0x80 ≤ second && second ≤ 0x9F
  else if first = 0xF0 then 0x90 ≤ second && second ≤ 0xBF
  else if first = 0xF4 then 0x80 ≤ second && second ≤ 0x8F
  else isContinuation second

def payload (b : UInt8) : Nat := b.toNat % 64

def scalar2 (a b : UInt8) : Char := Char.ofNat (a.toNat % 32 * 64 + payload b)

def scalar3 (a b c : UInt8) : Char :=
  Char.ofNat (a.toNat % 16 * 4096 + payload b * 64 + payload c)

def scalar4 (a b c d : UInt8) : Char :=
  Char.ofNat (a.toNat % 8 * 262144 + payload b * 4096 + payload c * 64 + payload d)

def replacement : Char := '\uFFFD'

def decodeChars : List UInt8 → List Char
  | [] => []
  | a :: as =>
    if a < 0x80 then Char.ofNat a.toNat :: decodeChars as
    else if 0xC2 ≤ a && a ≤ 0xDF then
      match as with
      | [] => [replacement]
      | b :: bs =>
        if isContinuation b then scalar2 a b :: decodeChars bs
        else replacement :: decodeChars (b :: bs)
    else if 0xE0 ≤ a && a ≤ 0xEF then
      match as with
      | [] => [replacement]
      | b :: bs =>
        if isSecond a b then
          match bs with
          | [] => [replacement]
          | c :: cs =>
            if isContinuation c then scalar3 a b c :: decodeChars cs
            else replacement :: decodeChars (c :: cs)
        else replacement :: decodeChars (b :: bs)
    else if 0xF0 ≤ a && a ≤ 0xF4 then
      match as with
      | [] => [replacement]
      | b :: bs =>
        if isSecond a b then
          match bs with
          | [] => [replacement]
          | c :: cs =>
            if isContinuation c then
              match cs with
              | [] => [replacement]
              | d :: ds =>
                if isContinuation d then scalar4 a b c d :: decodeChars ds
                else replacement :: decodeChars (d :: ds)
            else replacement :: decodeChars (c :: cs)
        else replacement :: decodeChars (b :: bs)
    else replacement :: decodeChars as

def decode (bytes : List UInt8) : String := String.ofList (decodeChars bytes)

end AgentPrompts.Utf8
