/-! # Paths

A path text is cut into parts at its slashes. In the lexical normal form no part is
empty or a dot, and two dots stand only in front of a relative path. Nothing here looks
at a disk.
-/

namespace AgentPrompts

def pathParts (s : String) : List String :=
  (s.toList.splitOn '/').map String.ofList

def isAbsolutePath (s : String) : Bool := s.toList.head? = some '/'

structure Path where
  absolute : Bool
  parts : List String
  deriving DecidableEq, Repr

namespace Path

/-- Adds a part to normal parts, kept last first. Two dots undo a name; above the root
there is nothing to leave, and above the start of a relative path they stay. -/
def push (absolute : Bool) (parts : List String) (part : String) : List String :=
  if part = "" ∨ part = "." then parts
  else if part = ".." then
    match parts with
    | [] => if absolute then [] else [".."]
    | last :: rest => if last = ".." then ".." :: parts else rest
  else part :: parts

def ofString (s : String) : Path :=
  let absolute := isAbsolutePath s
  ⟨absolute, ((pathParts s).foldl (push absolute) []).reverse⟩

def text (p : Path) : String :=
  (if p.absolute then "/" else "") ++ String.intercalate "/" p.parts

def child (p : Path) (name : String) : Path := { p with parts := p.parts ++ [name] }

end Path

def joinPath (directory name : String) : String := ((Path.ofString directory).child name).text

end AgentPrompts
