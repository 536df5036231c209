import AgentPrompts.Failure
import AgentPrompts.Number.Numeral

/-! # Flags

The words of a command line are read into items: plain words, flags switched off by `no-`,
flags that are switched on, and flags with a value. A flag with two dashes has one name;
with any other number of dashes each character is a flag and the last gets the value.
The items are then collected by name. A switch takes only `true` and `false` as values
and leaves any other text among the words, and a numeral becomes a number.
-/

namespace AgentPrompts.CommandLine

inductive Item where
  | word (text : String)
  | off (name : String)
  | on (name : String)
  | value (name text : String)
  deriving DecidableEq, Repr

def Item.name? : Item → Option String
  | word _ => none
  | off name => some name
  | on name => some name
  | value name _ => some name

/-- One word of a command line by itself. A flag keeps the text behind its equals sign,
unless that is empty. -/
inductive Word where
  | plain
  | off (name : String)
  | flag (names : List String) (text : Option String)
  deriving DecidableEq, Repr

/-- The names of a run of flags, one to a UTF-16 unit; half a character shows as U+FFFD. -/
def letterNames (cs : List Char) : List String :=
  cs.flatMap fun c => if charUnits c = 1 then [String.singleton c] else ["\uFFFD", "\uFFFD"]

/-- Cuts the part of a flag after its dashes at the first equals sign that is not its first
character. -/
def cutValue (body : List Char) : List Char × Option String :=
  match body with
  | [] => ([], none)
  | c :: cs =>
    let text := (cs.dropWhile (· ≠ '=')).drop 1
    (c :: cs.takeWhile (· ≠ '='), if text.isEmpty then none else some (String.ofList text))

def Word.ofString (arg : String) : Word :=
  let cs := arg.toList
  let dashes := (cs.takeWhile (· = '-')).length
  let body := cs.drop dashes
  if dashes = 0 then .plain
  else if body.take 3 = ['n', 'o', '-'] then .off (String.ofList (body.drop 3))
  else
    let (name, text) := cutValue body
    .flag (if dashes = 2 then [String.ofList name] else letterNames name) text

def startsWithDash (arg : String) : Bool := arg.toList.head? = some '-'

def switchOn (names : List String) : List Item := names.map .on

/-- Gives the last flag of a run a value and switches on the others. -/
def giveLast (names : List String) (text : String) : List Item :=
  match names.reverse with
  | [] => []
  | last :: others => switchOn others.reverse ++ [.value last text]

def itemsOf (arg : String) : List Item :=
  match Word.ofString arg with
  | .plain => [.word arg]
  | .off name => [.off name]
  | .flag names (some text) => giveLast names text
  | .flag names none => switchOn names

/-- The flags of a word that take the next word as their value: those without an equals
sign, unless the next word begins with a dash. -/
def namesForNext (arg next : String) : Option (List String) :=
  match Word.ofString arg with
  | .flag names none => if startsWithDash next then none else some names
  | _ => none

def items : List String → List Item
  | [] => []
  | [arg] => itemsOf arg
  | arg :: next :: rest =>
    match namesForNext arg next with
    | some names => giveLast names next ++ items rest
    | none => itemsOf arg ++ items (next :: rest)

/-- Values collected by name, as a record that inherits like any other. The plain words
stand under the name `_`, unless that is used as a flag. -/
structure Flags where
  members : Members Datum
  parent : Datum

namespace Flags

def wordsName : String := "_"

def empty : Flags := ⟨[(wordsName, .ofItems [])], Datum.emptyRecord.parent⟩

def words (flags : Flags) : Datum := (Members.get? wordsName flags.members).getD .absent

def record (flags : Flags) : Datum := .made none flags.members flags.parent

/-- The value of a flag, also one that it inherits. -/
def get (additions : Additions) (name : String) (flags : Flags) : Datum :=
  flags.record.get additions name

def replace (name : String) (v : Datum) (flags : Flags) : Flags :=
  if name = Datum.parentName then
    if v.isObject then { flags with parent := v } else flags
  else { flags with members := flags.members.set name v }

def valueOf (text : String) : Datum :=
  match Number.ofText text with
  | .finite q => .number (.finite q)
  | _ => .text text

def addWord (v : Datum) (flags : Flags) : Except UsageError Flags :=
  if flags.words.isList then .ok (flags.replace wordsName (flags.words.push v))
  else .error .wordsClosed

/-- Adds a value to a flag; a flag that is given more than once has a list of values. -/
def add (additions : Additions) (name : String) (v : Datum) (flags : Flags) : Flags :=
  let old := flags.get additions name
  flags.replace name <|
    if old.isAbsent then v
    else if old.isList then .ofItems (old.items ++ [v])
    else .ofItems [old, v]

end Flags

end AgentPrompts.CommandLine
