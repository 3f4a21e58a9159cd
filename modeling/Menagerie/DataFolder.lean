import Menagerie.Document.Ron
import Menagerie.Document.Toml
import Menagerie.Scenario
import Menagerie.Settings
import Menagerie.Template.Library

/-!
# Data folders

All that a run needs lies in one folder: the settings, the scenarios, and a folder of templates.

```text
settings.toml
scenario.ron
templates/
  mareep.json
  bee.json
```

A folder is a value here, the texts of its files under their names, so that loading is a function.
Settings may be missing; a template that cannot be used is disabled and does no harm to the others.
-/

namespace Menagerie

/-- Why something could not be loaded. Files and folders are named as they are looked for. -/
inductive LoadError where
  | unreadableFile (path : String)
  | unreadableFolder (path : String)
  | badSettings
  | badScenario (path : String)
  /-- Two agents of a scenario ask for one number. -/
  | repeatedAgent (path : String) (id : AgentId)
  deriving DecidableEq, Repr

namespace LoadError

/-- What went wrong, in as few words as do. -/
def headline : LoadError → String
  | unreadableFile _ => "Failed to read file"
  | unreadableFolder _ => "Failed to read directory"
  | badSettings => "Failed to parse settings TOML"
  | badScenario _ => "Failed to parse scenario RON"
  | repeatedAgent path id =>
    s!"Scenario {Document.Json.quote path} spawns agent {id.describe} twice"

def message (e : LoadError) : String :=
  match e with
  | unreadableFile path | unreadableFolder path => e.headline ++ " " ++ path
  | badScenario path => e.headline ++ " at " ++ Document.Json.quote path
  | badSettings | repeatedAgent .. => e.headline

end LoadError

/-- The files of a folder. -/
structure DataFolder where
  /-- Where the folder is. -/
  path : String
  /-- The texts of the files, under their names from the folder on. -/
  files : SortedMap String String

namespace DataFolder

/-- Where a file is that has a name from the folder on. -/
def pathOf (f : DataFolder) (name : String) : String := f.path ++ "/" ++ name

/-- What stands behind the name of a folder and a slash. -/
def nameInside? (folder name : String) : Option String :=
  let start := (folder ++ "/").toList
  if name.toList.take start.length = start then some (String.ofList (name.toList.drop start.length))
  else none

/-- The names of what is directly inside a folder. -/
def children (f : DataFolder) (folder : String) : List String :=
  let inside := f.files.keys.filterMap (nameInside? folder)
  (SortedSet.ofKeys (inside.map fun name => String.ofList (name.toList.takeWhile (· ≠ '/')))).keys

def isFolder (f : DataFolder) (name : String) : Bool := !(f.children name).isEmpty

/-- The text of a file. -/
def read (f : DataFolder) (name : String) : Except LoadError String :=
  match f.files.get? name with
  | some text => .ok text
  | none => .error (.unreadableFile (f.pathOf name))

/-! ## Settings -/

/-- The settings, which are the usual ones where nothing of that name is there. -/
def settings (f : DataFolder) : Except LoadError Settings := do
  let name := "settings.toml"
  if !f.files.contains name && !f.isFolder name then return {}
  let text ← f.read name
  match (Document.Toml.read? text).bind Settings.read? with
  | some settings => return settings
  | none => throw .badSettings

/-! ## Scenarios -/

/-- The scenario in the file of a name. No number is given to two of its agents. -/
def scenario (f : DataFolder) (name : String) : Except LoadError Scenario := do
  let file := name ++ ".ron"
  let text ← f.read file
  match (Ron.read? text).bind Scenario.read? with
  | none => throw (.badScenario (f.pathOf file))
  | some scenario =>
    match scenario.repeatedId? with
    | some id => throw (.repeatedAgent (f.pathOf file) id)
    | none => return scenario

/-! ## Templates -/

/-- The name of a file without its extension, if the extension is the one of JSON. A name that
begins with its only point has no extension. -/
def jsonStem? (name : String) : Option String :=
  let ending := ".json".toList
  let stem := name.toList.take (name.length - ending.length)
  if stem ≠ [] ∧ name.toList.drop stem.length = ending then some (String.ofList stem) else none

/-- Takes in a template file. The stem of its name is its origin. -/
def ingestText (r : Registry) (l : Library) (origin text : String) : Library :=
  match Document.Json.read? text with
  | some d => l.ingest r origin d
  | none => l.disable origin origin (.malformed (.root origin) .unreadable)

/-- The templates, taken in by the order of their file names. -/
def templates (f : DataFolder) (r : Registry) : Except LoadError Library := do
  let folder := "templates"
  if !f.isFolder folder then throw (.unreadableFolder (f.pathOf folder))
  (f.children folder).foldlM (fun l name =>
    match jsonStem? name with
    | none => .ok l
    | some origin => do
      let text ← f.read (folder ++ "/" ++ name)
      return ingestText r l origin text) {}

end DataFolder

end Menagerie
