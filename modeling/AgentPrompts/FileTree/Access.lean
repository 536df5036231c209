import AgentPrompts.FileTree
import AgentPrompts.FileTree.Fault
import AgentPrompts.Path

/-! # Access by path

A path is followed part by part from the root or the working directory: a dot stays, two
dots go up, a name goes down. Every part but the last must lead to a directory, also
when an empty part, a dot or two dots follow. Files are written whole, and making a
directory makes its missing parents from left to right. A path has a greatest length
wherever it leads, and so has a name.
-/

namespace AgentPrompts

def maxNameBytes : Nat := 255

def maxPathBytes : Nat := 4095

namespace Disk

def holdsNul (path : String) : Bool := path.toList.contains '\x00'

def start (d : Disk) (path : String) : Location :=
  if isAbsolutePath path then [] else d.workingDirectory

def follow (d : Disk) (l : Location) : List String → Except Fault Location
  | [] => .ok l
  | part :: parts =>
    match d.node? l with
    | none => .error .notFound
    | some (.file _) => .error .notDirectory
    | some .directory =>
      if part = "" ∨ part = "." then d.follow l parts
      else if part = ".." then d.follow l.dropLast parts
      else if maxNameBytes < part.utf8ByteSize then .error .nameTooLong
      else if (d.node? (l ++ [part])).isNone then .error .notFound
      else d.follow (l ++ [part]) parts

/-- A path that cannot be used wherever it leads. -/
def pathFault? (path : String) : Option Fault :=
  if path = "" then some .notFound
  else if maxPathBytes < path.utf8ByteSize then some .nameTooLong
  else none

def locate (d : Disk) (path : String) : Except Fault Location :=
  match pathFault? path with
  | some f => .error f
  | none => d.follow (d.start path) (pathParts path)

def stat (d : Disk) (path : String) : Except AccessError Node :=
  if holdsNul path then .error (.nul path)
  else
    match d.locate path with
    | .error f => .error (.fault f "stat" path)
    | .ok l =>
      match d.node? l with
      | some n => .ok n
      | none => .error (.fault .notFound "stat" path)

def readFile (d : Disk) (path : String) : Except AccessError (List UInt8) :=
  match d.stat path with
  | .ok (.file content) => .ok content
  | .ok .directory => .error (.fault .isDirectory "read" path)
  | .error (.fault f _ _) => .error (.fault f "open" path)
  | .error e => .error e

/-- Where a file with this path is written: a name in a directory. -/
def locateNew (d : Disk) (path : String) : Except Fault Location :=
  match pathFault? path, (pathParts path).reverse with
  | some f, _ => .error f
  | none, [] => .error .notFound
  | none, name :: above =>
    match d.follow (d.start path) above.reverse with
    | .error f => .error f
    | .ok l =>
      if name = "" ∨ name = "." ∨ name = ".." then .error .isDirectory
      else
        match d.node? l with
        | none => .error .notFound
        | some (.file _) => .error .notDirectory
        | some .directory =>
          if maxNameBytes < name.utf8ByteSize then .error .nameTooLong
          else if d.node? (l ++ [name]) = some .directory then .error .isDirectory
          else .ok (l ++ [name])

def writeFile (d : Disk) (path : String) (content : List UInt8) : Except AccessError Disk :=
  if holdsNul path then .error (.nul path)
  else
    match d.locateNew path with
    | .error f => .error (.fault f "open" path)
    | .ok l => .ok (d.put l (.file content))

/-- What keeps a directory from being made, and the parts of its path behind the one
where that showed. -/
structure Obstacle where
  fault : Fault
  rest : List String
  deriving DecidableEq, Repr

/-- Follows parts from a location and makes the directories that are missing. What was
made stays when a part cannot be followed. -/
def makeAlong (d : Disk) (l : Location) : List String → Disk × Option Obstacle
  | [] =>
    match d.node? l with
    | some .directory => (d, none)
    | some (.file _) => (d, some ⟨.alreadyExists, []⟩)
    | none => (d, some ⟨.notFound, []⟩)
  | part :: parts =>
    match d.node? l with
    | none => (d, some ⟨.notFound, []⟩)
    | some (.file _) => (d, some ⟨.notDirectory, part :: parts⟩)
    | some .directory =>
      if part = "" ∨ part = "." then d.makeAlong l parts
      else if part = ".." then d.makeAlong l.dropLast parts
      else if maxNameBytes < part.utf8ByteSize then (d, some ⟨.nameTooLong, parts⟩)
      else if (d.node? (l ++ [part])).isNone then
        (d.put (l ++ [part]) (.directory [])).makeAlong (l ++ [part]) parts
      else d.makeAlong (l ++ [part]) parts

/-- The path that an error names when a directory could not be made: the whole path, or
the path up to the obstacle when a directory was missing before it. -/
def obstructedPath (d : Disk) (path : String) (o : Obstacle) : String :=
  match d.locate path with
  | .error .notFound =>
    let parts := pathParts path
    String.intercalate "/" (parts.take (parts.length - o.rest.length))
  | _ => path

def makeDirectory (d : Disk) (path : String) : Disk × Option AccessError :=
  if holdsNul path then (d, some (.nul path))
  else
    match pathFault? path with
    | some f => (d, some (.fault f "mkdir" path))
    | none =>
      match d.makeAlong (d.start path) (pathParts path) with
      | (d', none) => (d', none)
      | (d', some o) => (d', some (.fault o.fault "mkdir" (d.obstructedPath path o)))

end Disk

end AgentPrompts
