import AgentPrompts.CommandLine.Flags
import AgentPrompts.CommandLine.Usage
import AgentPrompts.Datum.Additions
import AgentPrompts.Datum.Text

/-! # Readers

Items are collected with the tables of a command: which flags have other names, which are
switches and which keep their texts. The tables are records as well, so a member that was added to
the object from which all records inherit is found in them like an entry of their own.
-/

namespace AgentPrompts.CommandLine

structure Reader where
  /-- Lists of the other names of flags. -/
  aliases : Flags
  switches : List String
  /-- The flags whose values stay texts. -/
  texts : List String
  defaults : Datum
  /-- Whether only flags with an entry among the aliases are known. -/
  strict : Bool

namespace Reader

/-- The items of a list, also inherited ones, or the value that is no list. -/
def listOf (additions : Additions) (v : Datum) : List Datum :=
  if v.isAbsent then []
  else if v.isList then
    (List.range v.items.length).map fun i => v.get additions (Datum.indexName i)
  else [v]

def textsIn (vs : List Datum) : List String :=
  vs.filterMap fun
    | .text s => some s
    | _ => none

def nameOf (additions : Additions) (v : Datum) : Except UsageError String :=
  (v.asText additions).mapError .noText

def declared (os : List OptionUsage) : Flags where
  members := os.filterMap fun o =>
    match o.names with
    | name :: other :: others => some (name, .ofItems ((other :: others).map .text))
    | _ => none
  parent := Datum.emptyRecord.parent

/-- Lists a flag and its other names under each of the other names. -/
def link (additions : Additions) (aliases : Flags) (name : String) : Except UsageError Flags :=
  let others := listOf additions (aliases.get additions name)
  others.zipIdx.foldlM (fun aliases (other, i) => do
      let other ← nameOf additions other
      pure (aliases.replace other (.ofItems (others.eraseIdx i ++ [.text name]))))
    (aliases.replace name (.ofItems others))

def aliasesOf (os : List OptionUsage) (additions : Additions) : Except UsageError Flags :=
  ((declared os).record.enumerated additions).foldlM (link additions) (declared os)

def withOthers (aliases : Flags) (additions : Additions) (names : List String) : List String :=
  names.flatMap fun name => name :: textsIn (aliases.get additions name).items

def switchNames (os : List OptionUsage) (additions : Additions) : List String :=
  (os.filter fun o => !o.takesValue || additions.isOn "isBoolean").flatMap (·.names.take 1)

/-- Lists a default among the flags of its kind. -/
def addDefault (additions : Additions) (r : Reader) (name : String) : Except UsageError Reader :=
  let found := r.aliases.get additions name
  let others := if found.isOn then found else .ofItems []
  let names := name :: textsIn others.items
  let r := { r with aliases := r.aliases.replace name others }
  match (r.defaults.get additions name).kind with
  | "string" => .ok { r with texts := r.texts ++ names }
  | "boolean" => .ok { r with switches := r.switches ++ names }
  | kind =>
    let listed := additions.inherited kind
    if listed.isAbsent || listed.isList then .ok r else .error .defaultKind

/-- A text as a record of its UTF-16 units. -/
def spread : Datum → Datum
  | .text s =>
    .made none ((letterNames s.toList).zipIdx.map fun c => (Datum.indexName c.2, .text c.1))
      (.shared (.prototype .text))
  | v => v

def ofOptions (os : List OptionUsage) (additions : Additions) : Except UsageError Reader := do
  let aliases ← aliasesOf os additions
  let defaults := spread (additions.inherited "default")
  (defaults.enumerated additions).foldlM (addDefault additions)
    { aliases
      switches := withOthers aliases additions (switchNames os additions)
      texts := withOthers aliases additions (textsIn (listOf additions (additions.inherited "string")))
      defaults
      strict := !(additions.inherited "unknown").isAbsent }

def refuses (r : Reader) (name : String) : Bool := r.strict && !Members.has name r.aliases.members

end Reader

namespace Flags

/-- Adds the value that an item gives. A switch leaves a text other than `true` and `false` among
the words. -/
def addItem (r : Reader) (additions : Additions) (flags : Flags) : Item → Except UsageError Flags
  | .word text => flags.addWord (.text text)
  | .off name => .ok (flags.replace name (.bool false))
  | .on name =>
    .ok (flags.add additions name (if name ∈ r.texts then .text "" else .bool true))
  | .value name text =>
    if name ∈ r.texts then .ok (flags.add additions name (.text text))
    else if name ∈ r.switches then
      if text = "false" then .ok (flags.add additions name (.bool false))
      else if text = "true" then .ok (flags.add additions name (.bool true))
      else do
        let flags ← flags.addWord (valueOf text)
        pure (flags.add additions name (.bool (text ≠ "")))
    else .ok (flags.add additions name (valueOf text))

def readItem (r : Reader) (additions : Additions) (flags : Flags) (item : Item) :
    Except UsageError Flags :=
  if item.name?.any r.refuses then .error .notRefused else flags.addItem r additions item

def fill (defaults : Datum) (additions : Additions) (flags : Flags) (name : String) : Flags :=
  if (flags.get additions name).isAbsent then flags.replace name (defaults.get additions name)
  else flags

/-- Under these names every record inherits a function with arguments. As an entry among the
aliases its length stands for that of a list of other names, which it does not have. -/
def reservedNames : List String :=
  ["constructor", "hasOwnProperty", "isPrototypeOf", "propertyIsEnumerable",
    "__defineGetter__", "__defineSetter__", "__lookupGetter__", "__lookupSetter__"]

def hasLength (additions : Additions) (v : Datum) : Bool :=
  let length : Number := match v.get additions "length" with
    | .number x => x
    | .bool b => .ofNat b.toNat
    | .text s => .ofText s
    | _ => .nan
  match length with
  | .finite q => 0 < q
  | .infinite negative => !negative
  | .nan => false

/-- The other names of a flag: the items of its entry among the aliases. -/
def othersOf (additions : Additions) (name : String) (entry : Datum) :
    Except UsageError (List Datum) :=
  let isTaken : Bool := match entry with
    | .shared b => b.isFunction && reservedNames.contains name
    | entry => hasLength additions entry
  if !entry.isOn then .ok []
  else if entry.isList then .ok entry.items
  else if isTaken then .error .reservedName
  else .ok []

def share (aliases : Flags) (additions : Additions) (flags : Flags) (name : String) :
    Except UsageError Flags := do
  let others ← othersOf additions name (aliases.get additions name)
  others.foldlM (fun flags other => do
      let other ← Reader.nameOf additions other
      pure (flags.replace other (flags.get additions name)))
    flags

def ofItems (r : Reader) (additions : Additions) (is : List Item) : Except UsageError Flags := do
  let flags ← is.foldlM (readItem r additions) empty
  let flags := (r.defaults.enumerated additions).foldl (fill r.defaults additions) flags
  (flags.record.enumerated additions).foldlM (share r.aliases additions) flags

end Flags

end AgentPrompts.CommandLine
