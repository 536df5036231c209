/-! # File trees

A disk holds a tree of directories and files and a working directory. Locations are the
names on the way from the root. `Disk.node?` is the view in which states are compared:
what stands at a location, without what stands below it.
-/

namespace AgentPrompts

inductive Entry where
  | file (content : List UInt8)
  | directory (children : List (String × Entry))
  deriving Inhabited

abbrev Location := List String

inductive Node where
  | file (content : List UInt8)
  | directory
  deriving DecidableEq, Repr

namespace Entry

def node : Entry → Node
  | file content => .file content
  | directory _ => .directory

def children : Entry → List (String × Entry)
  | file _ => []
  | directory cs => cs

/-- Inserts a child before the first with a greater name. -/
def insertChild (name : String) (e : Entry) : List (String × Entry) → List (String × Entry)
  | [] => [(name, e)]
  | c :: cs => if name < c.1 then (name, e) :: c :: cs else c :: insertChild name e cs

def replaceChild (name : String) (e : Entry) : List (String × Entry) → List (String × Entry)
  | [] => []
  | c :: cs => if c.1 = name then (name, e) :: cs else c :: replaceChild name e cs

def setChild (name : String) (e : Entry) (cs : List (String × Entry)) : List (String × Entry) :=
  if (cs.lookup name).isSome then replaceChild name e cs else insertChild name e cs

def get? : Entry → Location → Option Entry
  | e, [] => some e
  | e, name :: names => (e.children.lookup name).bind (get? · names)

/-- Puts an entry at a location. Directories on the way that are missing are made; below
a file nothing can be put. -/
def put (new : Entry) : Location → Entry → Entry
  | [], _ => new
  | _ :: _, file content => file content
  | name :: names, directory cs =>
    directory (setChild name (put new names ((cs.lookup name).getD (directory []))) cs)

mutual

def nodes (above : Location) : Entry → List (Location × Node)
  | file _ => []
  | directory cs => childNodes above cs

def childNodes (above : Location) : List (String × Entry) → List (Location × Node)
  | [] => []
  | (name, e) :: cs =>
    (above ++ [name], e.node) :: nodes (above ++ [name]) e ++ childNodes above cs

end

end Entry

/-- A file tree and the working directory from which relative paths start. -/
structure Disk where
  root : Entry
  workingDirectory : Location

namespace Disk

def node? (d : Disk) (l : Location) : Option Node := (d.root.get? l).map Entry.node

def put (d : Disk) (l : Location) (e : Entry) : Disk := { d with root := Entry.put e l d.root }

end Disk

end AgentPrompts
