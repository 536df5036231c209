import AgentPrompts.Text.Units

/-! # Faults of access

The reasons for which a path cannot be used, with their codes and messages.
-/

namespace AgentPrompts

inductive Fault where
  | notFound
  | notDirectory
  | isDirectory
  | alreadyExists
  | nameTooLong
  deriving DecidableEq, Repr

namespace Fault

def code : Fault → String
  | notFound => "ENOENT"
  | notDirectory => "ENOTDIR"
  | isDirectory => "EISDIR"
  | alreadyExists => "EEXIST"
  | nameTooLong => "ENAMETOOLONG"

def description : Fault → String
  | notFound => "no such file or directory"
  | notDirectory => "not a directory"
  | isDirectory => "illegal operation on a directory"
  | alreadyExists => "file already exists"
  | nameTooLong => "name too long"

end Fault

inductive AccessError where
  | fault (fault : Fault) (operation path : String)
  | nul (path : String)
  deriving DecidableEq, Repr

namespace AccessError

def twoHex (n : Nat) : List Char :=
  let digit (i : Nat) : Char := "0123456789ABCDEF".toList.getD i '0'
  ['\\', 'x', digit (n / 16), digit (n % 16)]

def shownChar (mark c : Char) : List Char :=
  if c = mark then ['\\', c]
  else if c = '\\' then ['\\', '\\']
  else if c = '\n' then ['\\', 'n']
  else if c = '\t' then ['\\', 't']
  else if c = '\r' then ['\\', 'r']
  else if c = '\x08' then ['\\', 'b']
  else if c = '\x0c' then ['\\', 'f']
  else if c.toNat < 0x20 ∨ (0x7F ≤ c.toNat ∧ c.toNat ≤ 0x9F) then twoHex c.toNat
  else [c]

/-- A text between single quotes, or between double quotes or backticks when it holds
the other marks and not that one. -/
def quoted (cs : List Char) : List Char :=
  let mark :=
    if ¬ cs.contains '\x27' then '\x27'
    else if ¬ cs.contains '\x22' then '\x22'
    else if ¬ cs.contains '\x60' ∧ ¬ (cs.zip cs.tail).contains ('$', '\x7b') then '\x60'
    else '\x27'
  mark :: (cs.flatMap (shownChar mark) ++ [mark])

def linesOf : List Char → List (List Char)
  | [] => []
  | c :: cs =>
    if c = '\n' then [c] :: linesOf cs
    else
      match linesOf cs with
      | [] => [[c]]
      | l :: ls => (c :: l) :: ls

/-- A text is looked at up to here, in UTF-16 units. -/
def readLimit : Nat := 10000

/-- A text of more units is shown line by line. -/
def lineLimit : Nat := 76

def shownLimit : Nat := 128

/-- A path in quotes, cut off when it grows long. The lines of a long path are quoted
one by one and joined by plus signs. -/
def shownPath (path : String) : String :=
  let cs := takeUnits readLimit path.toList
  let shown :=
    if unitCount cs ≤ lineLimit then quoted cs
    else List.intercalate " +\n  ".toList ((linesOf cs).map quoted)
  if unitCount shown ≤ shownLimit then String.ofList shown
  else String.ofList (takeUnits shownLimit shown) ++ "..."

def code : AccessError → String
  | fault f _ _ => f.code
  | nul _ => "ERR_INVALID_ARG_VALUE"

def message : AccessError → String
  | fault f operation path =>
    f.code ++ ": " ++ f.description ++ ", " ++ operation ++ " '" ++ path ++ "'"
  | nul path =>
    "The argument 'path' must be a string, Uint8Array, or URL without null bytes. Received " ++
      shownPath path

end AccessError

end AgentPrompts
