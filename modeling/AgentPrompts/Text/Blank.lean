/-! # Blank characters

The characters that count as blank around a numeral: the space separators, the line
and paragraph separators, the byte order mark, and tab, line feed, vertical tab, form
feed and carriage return.
-/

namespace AgentPrompts

def isBlank (c : Char) : Bool :=
  (0x9 ≤ c.val && c.val ≤ 0xD) || c.val = 0x20 || c.val = 0xA0 || c.val = 0x1680 ||
  (0x2000 ≤ c.val && c.val ≤ 0x200A) || c.val = 0x2028 || c.val = 0x2029 ||
  c.val = 0x202F || c.val = 0x205F || c.val = 0x3000 || c.val = 0xFEFF

def trimBlanks (cs : List Char) : List Char :=
  ((cs.dropWhile isBlank).reverse.dropWhile isBlank).reverse

end AgentPrompts
