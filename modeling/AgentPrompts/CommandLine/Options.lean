import AgentPrompts.CommandLine.Reader

/-! # Options

Flags become options under camel-case names. A dot in a name reaches into the value of an
option.
-/

namespace AgentPrompts.CommandLine

/-- Drops each dash between two lower-case letters and capitalises the second, from left
to right. -/
def camelCase : List Char → List Char
  | a :: d :: b :: cs =>
    if d = '-' && a.isLower && b.isLower then a :: b.toUpper :: camelCase cs
    else a :: camelCase (d :: b :: cs)
  | cs => cs

def nameParts (name : String) : List String := (name.toList.splitOn '.').map String.ofList

/-- The name of the option that a flag sets: the part before the first dot is camel-case. -/
def optionName (flag : String) : String :=
  let cs := flag.toList
  String.ofList (camelCase (cs.takeWhile (· ≠ '.')) ++ cs.dropWhile (· ≠ '.'))

/-- The options before any flag sets one: the words behind a lone `--` under that name, and a
default under the name of each option. -/
def startOptions (os : List OptionUsage) (rest : List String) (additions : Additions) : Datum :=
  let names :=
    if additions.isOn "ignoreOptionDefaultValue" || (additions.inherited "default").isAbsent then []
    else os.flatMap (·.names)
  .made none
    (names.foldl (fun ms name => Members.set name (additions.inherited "default") ms)
      [("--", .ofItems (rest.map .text))])
    Datum.emptyRecord.parent

def optionsOf (start : Datum) (flags : Flags) (additions : Additions) :
    Except (AssignmentError × Additions) (Datum × Additions) :=
  let named := (Members.listed flags.members).map fun m => (optionName m.1, m.2)
  (Members.ofList named).foldlM (fun (options, additions) m =>
    if m.1 = Flags.wordsName then pure (options, additions)
    else Datum.assign m.2 (nameParts m.1) additions options) (start, additions)

structure Parsed where
  words : Datum
  options : Datum
  additions : Additions

structure ReadingError where
  error : UsageError
  additions : Additions

def Parsed.ofArgs (c : Command) (args : List String) (additions : Additions) :
    Except ReadingError Parsed := do
  let flags ← (do
    let reader ← Reader.ofOptions c.allOptions additions
    Flags.ofItems reader additions (items (args.takeWhile (· ≠ "--")))).mapError (⟨·, additions⟩)
  let start := startOptions c.allOptions ((args.dropWhile (· ≠ "--")).drop 1) additions
  let (options, additions) ← (optionsOf start flags additions).mapError fun e =>
    ⟨.assignment e.1, e.2⟩
  pure ⟨flags.words, options, additions⟩

end AgentPrompts.CommandLine
