import Menagerie.DataFolder
import Menagerie.Simulation.Report

/-!
# The command line

A run is asked for by arguments. Long options take their value from the next argument or behind an
equals sign, short ones from the next argument, behind an equals sign, or directly. No option is
given twice, and nothing but options is given. An argument that begins with a hyphen is never the
value of the option before it, unless it is a lone hyphen.

`run` is the whole program as a function of its arguments and of the data folder.
-/

namespace Menagerie

/-- How a report is printed. -/
inductive ReportFormat where
  | summary
  | json
  deriving DecidableEq, Repr

instance : Named ReportFormat where
  all := [.summary, .json]
  name
    | .summary => "summary"
    | .json => "json"

/-- The options that there are. -/
inductive Flag where
  | dataDir
  | scenario
  | ticks
  | seed
  | format
  deriving DecidableEq, Repr

namespace Flag

instance : Named Flag where
  all := [.dataDir, .scenario, .ticks, .seed, .format]
  name
    | .dataDir => "data-dir"
    | .scenario => "scenario"
    | .ticks => "ticks"
    | .seed => "seed"
    | .format => "format"

/-- The letter of an option, for those that have one. -/
def letter? : Flag → Option Char
  | dataDir => some 'd'
  | scenario => some 's'
  | ticks => some 't'
  | seed => none
  | format => some 'f'

def ofLetter? (c : Char) : Option Flag := (Named.all (α := Flag)).find? fun f => f.letter? = some c

end Flag

/-- What a run is asked for. -/
structure Request where
  dataDir : String := "data"
  scenario : String := "scenario"
  /-- For how many ticks to run; else for as many as the settings say. -/
  ticks : Option UInt64 := none
  /-- The seed that takes the place of the one in the settings. -/
  seed : Option UInt64 := none
  format : ReportFormat := .summary
  deriving DecidableEq, Repr

namespace Request

/-! ## Arguments -/

/-- Whether an argument is an option, and no value for the one before it. -/
def isOption (arg : String) : Bool :=
  match arg.toList with
  | '-' :: _ :: _ => true
  | _ => false

/-- The text before the first equals sign, and the text after it if there is one. -/
def splitValue (cs : List Char) : List Char × Option String :=
  match cs.dropWhile (· ≠ '=') with
  | _ :: value => (cs.takeWhile (· ≠ '='), some (String.ofList value))
  | [] => (cs, none)

/-- The value that stands in the same argument as its letter. -/
def attachedValue : List Char → Option String
  | [] => none
  | '=' :: value => some (String.ofList value)
  | value => some (String.ofList value)

/-- The option that an argument gives, and its value if that stands in the same argument. -/
def option? (arg : String) : Option (Flag × Option String) :=
  match arg.toList with
  | '-' :: '-' :: rest =>
    let (name, value) := splitValue rest
    (Named.ofName? (String.ofList name)).map fun flag => (flag, value)
  | '-' :: letter :: rest => (Flag.ofLetter? letter).map fun flag => (flag, attachedValue rest)
  | _ => none

/-- The options that arguments give. Two hyphens by themselves may stand last. -/
def options? : List String → Option (List (Flag × String))
  | [] => some []
  | ["--"] => some []
  | arg :: rest =>
    match option? arg, rest with
    | some (flag, some value), rest => (options? rest).map ((flag, value) :: ·)
    | some (flag, none), value :: rest =>
      if isOption value then none else (options? rest).map ((flag, value) :: ·)
    | _, _ => none

/-- A number of 64 bits in decimal digits; a plus sign may stand before them. -/
def number? (value : String) : Option UInt64 := do
  let digits := match value.toList with
    | '+' :: rest => rest
    | cs => cs
  let n ← Number.natural? digits
  if n < UInt64.size then some n.toUInt64 else none

/-- The request with an option set. -/
def set? (r : Request) : Flag → String → Option Request
  | .dataDir, value => if value = "" then none else some { r with dataDir := value }
  | .scenario, value => some { r with scenario := value }
  | .ticks, value => (number? value).map fun n => { r with ticks := some n }
  | .seed, value => (number? value).map fun n => { r with seed := some n }
  | .format, value => (Named.ofName? value).map fun format => { r with format }

/-- What arguments ask for, if they ask for a run. -/
def ofArgs? (args : List String) : Option Request := do
  let options ← options? args
  let flags := options.map Prod.fst
  if flags.eraseDups ≠ flags then none
  else options.foldlM (fun (r : Request) (flag, value) => r.set? flag value) {}

end Request

/-! ## Runs -/

/-- What a program leaves behind: its exit code and what it printed. -/
structure Outcome where
  code : UInt32
  printed : String
  deriving DecidableEq, Repr

namespace Outcome

/-- The arguments ask for nothing. -/
def misuse : Outcome := ⟨2, ""⟩

/-- The data folder does not hold what is asked for. -/
def failure : Outcome := ⟨1, ""⟩

end Outcome

/-- A report as it is printed. -/
def Report.print (r : Report) : ReportFormat → String
  | .summary => String.join (r.lines.map (· ++ "\n"))
  | .json => Document.Json.pretty r.toDocument ++ "\n"

namespace Request

/-- The report of the run that is asked for. -/
def report (r : Request) (folder : DataFolder) : Except LoadError Report := do
  let settings ← folder.settings
  let settings := { settings with seed := r.seed.getD settings.seed }
  let templates ← folder.templates .builtin
  let scenario ← folder.scenario r.scenario
  let start := Simulation.ofScenario { settings, templates } scenario
  return .ofSimulation (start.run (r.ticks.getD settings.ticks).toNat)

/-- Runs what arguments ask for. `folderAt` yields the data folder of a path. -/
def run (folderAt : String → DataFolder) (args : List String) : Outcome :=
  match ofArgs? args with
  | none => .misuse
  | some r =>
    match r.report (folderAt r.dataDir) with
    | .error _ => .failure
    | .ok report => ⟨0, report.print r.format⟩

end Request

end Menagerie
