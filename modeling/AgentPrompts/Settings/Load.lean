import AgentPrompts.FileTree.Access
import AgentPrompts.Json.Reader
import AgentPrompts.Settings
import AgentPrompts.Text.Utf8

/-! # Loading settings

Each setting comes from the first source that gives it: what the caller overrides, the
environment, `.swarmrc`, the member `swarm` of `package.json`, the defaults. Only then
is it checked, so what a later source says about it never matters.
-/

namespace AgentPrompts

namespace Settings

def projectFile (project : Option String) (name : String) : String :=
  joinPath (project.getD "") name

/-- The document in a file; a file that cannot be read or holds no document has none. -/
def document? (d : Disk) (path : String) : Option Json :=
  match d.readFile path with
  | .ok content => Json.parse? (Utf8.decode content)
  | .error _ => none

def sourceOf : Option Json → Source
  | some (.record ms) => Source.ofRecord (Value.ofJson (.record ms))
  | _ => {}

def swarmrcSource (d : Disk) (project : Option String) : Source :=
  sourceOf (document? d (projectFile project ".swarmrc"))

def packageSource (d : Disk) (project : Option String) : Source :=
  sourceOf ((document? d (projectFile project "package.json")).bind (Json.member? "swarm"))

def sources (d : Disk) (env : Environment) (project : Option String) (overrides : Source) :
    List Source :=
  [overrides, Source.ofEnvironment env, swarmrcSource d project, packageSource d project,
    Source.ofSettings defaults]

def merged (ss : List Source) : Source := ss.foldr Source.orElse {}

/-- A setting that must be a text that is not empty, or what is wrong with it. -/
def checkText (setting : Setting) (v : Value) : Except Issue String :=
  match v with
  | .text s => if s = "" then .error (.empty setting) else .ok s
  | v => .error (.notText setting v.kind)

def issuesOf (checks : List (Except Issue String)) : List Issue :=
  checks.filterMap fun
    | .error issue => some issue
    | .ok _ => none

/-- The settings that a source gives, if they are usable. A bad count is reported first
and alone. -/
def check (s : Source) : Except Failure Settings :=
  let template := checkText .template s.template
  let outDir := checkText .outDir s.outDir
  let count? := match s.count with
    | .number x => if x.nat?.isSome then some x else none
    | _ => none
  match count?, template, outDir with
  | some count, .ok template, .ok outDir => .ok ⟨count, template, outDir⟩
  | some _, template, outDir => .error (.configuration (.settings (issuesOf [template, outDir])))
  | none, _, _ =>
    match s.count.asText with
    | .ok shown => .error (.configuration (.countSetting shown))
    | .error e => .error (.noText e)

def load (d : Disk) (env : Environment) (project : Option String) (overrides : Source) :
    Except Failure Settings :=
  check (merged (sources d env project overrides))

end Settings

end AgentPrompts
