import ComponentDoc.Cli.Args
import ComponentDoc.Config.Load
import ComponentDoc.Document.Encode

/-!
Running a command on the files that the program sees. Documents go to the standard output, messages to
the standard error output. The exit code is 0 if every component was documented, 1 if one was not, and 2
if nothing was tried.
-/
namespace ComponentDoc.Cli

open Text

structure Outcome where
  code : Nat
  stdout : String := ""
  stderr : List String := []
  /-- The text for a new configuration file in the work folder. -/
  newConfig : Option String := none

def successMark : String :=
  "✓"

def failureMark : String :=
  "✘"

/-- Why a file has no document. -/
inductive FileError where
  | unreadable
  | unparsable (error : ExtractError)
  | undocumented (error : ExtractError)

def FileError.message (path : String) : FileError → String
  | .unreadable => "Failed to read file: " ++ path ++ ": stream did not contain valid UTF-8"
  | .unparsable error => "Failed to parse " ++ path ++ ": " ++ error.message
  | .undocumented error => "Failed to document " ++ path ++ ": " ++ error.message

/-- The document of a file. -/
def documentFile (files : Files) (options : Options) (path : List Char) :
    Except FileError Document :=
  match files.text? path with
  | none => .error .unreadable
  | some source =>
    match Component.parse source.toList (some (String.ofList path)) with
    | .error error => .error (.unparsable error)
    | .ok component =>
      match extract component options with
      | .error error => .error (.undocumented error)
      | .ok document => .ok document

/-- A path as it is shown: seen from the work folder if it is inside. -/
def label (files : Files) (path : List Char) : String :=
  String.ofList ((Path.relativeTo? path files.workFolder).getD path)

/-- Sets a member of an object; a member that is there keeps its place. -/
def setMember (key : String) (value : Json) : List (String × Json) → List (String × Json)
  | [] => [(key, value)]
  | m :: members =>
    if m.1 == key then (key, value) :: members else m :: setMember key value members

/-- Documents by label, and messages on the files without one. -/
structure Report where
  documents : List (String × Json) := []
  failures : List String := []

def Report.add (files : Files) (options : Options) (report : Report) (path : List Char) : Report :=
  let shown := label files path
  match documentFile files options path with
  | .ok document => { report with documents := setMember shown document.toJson report.documents }
  | .error error =>
    { report with failures := report.failures ++
        [failureMark ++ " " ++ shown ++ " " ++ error.message (String.ofList path)] }

/-- The line that sums up several files. -/
def summary (documented failed : Nat) : String :=
  let count := "Documented " ++ toString documented
    ++ (if documented == 1 then " component" else " components")
  if failed == 0 then successMark ++ " " ++ count
  else failureMark ++ " " ++ count ++ ", " ++ toString failed ++ " failed"

/-- A value as a line of output. -/
def printed (compact : Bool) (json : Json) : String :=
  (if compact then json.compact else json.pretty) ++ "\n"

/-- The outcome of documenting files. The document of a single file stands for itself, those of several
are members of one object. -/
def Report.outcome (report : Report) (fileCount : Nat) (compact : Bool) : Outcome :=
  let failed := report.failures.length
  let code := if failed == 0 then 0 else 1
  if fileCount == 1 then
    { code
      stdout := (report.documents.head?.map fun m => printed compact m.2).getD ""
      stderr := report.failures }
  else
    { code
      stdout := printed compact (.record report.documents)
      stderr := report.failures ++ [summary report.documents.length failed] }

def failure (message : String) : Outcome :=
  { code := 2, stderr := ["error: " ++ message] }

/-- The roots of a command: the paths that it is given or, without one, what the includes give. -/
def ParseCommand.roots (command : ParseCommand) (files : Files) (loaded : Config.Loaded) : List (List Char) :=
  if command.paths.isEmpty then
    files.resolveIncludes loaded.baseFolder (loaded.config.includes.map String.toList)
  else command.paths.map String.toList

/-- The files that a command finds. -/
def ParseCommand.found (command : ParseCommand) (files : Files) (loaded : Config.Loaded) : List (List Char) :=
  (files.scan (command.roots files loaded) (loaded.config.ignores.map String.toList)).files

/-- The report on the files that a command finds. -/
def ParseCommand.report (command : ParseCommand) (files : Files) (loaded : Config.Loaded) : Report :=
  (command.found files loaded).foldl (Report.add files (command.apply loaded.config.options)) {}

/-- Runs the command that documents components. -/
def runParse (files : Files) (command : ParseCommand) : Outcome :=
  match files.loadConfig files.workFolder with
  | .error error => failure error.fullMessage
  | .ok loaded =>
    let found := command.found files loaded
    if found.isEmpty then failure "No .svelte files found"
    else (command.report files loaded).outcome found.length command.compact

/-- Runs the command that writes a configuration file. -/
def runInit (files : Files) : Outcome :=
  if files.isThere Config.fileName.toList then
    { code := 1, stderr := [failureMark ++ " " ++ Config.fileName ++ " already exists"] }
  else
    { code := 0
      stdout := successMark ++ " Created " ++ Config.fileName ++ "\n"
      newConfig := some Config.defaultText }

def helpText : String :=
  "Extract documentation metadata from Svelte v2 and v3 components\n\n"
    ++ "Usage: sveltedoc [COMMAND]\n\n"
    ++ "Commands:\n"
    ++ "  parse [OPTIONS] [PATHS]...  Extract component documentation as JSON\n"
    ++ "  init                        Initialize a new .sveltedocrc.json configuration file\n"
    ++ "  help [COMMAND]              Print this message\n\n"
    ++ "Options of parse:\n"
    ++ "      --svelte-version <VERSION>        Svelte dialect version, 2 or 3\n"
    ++ "      --features <FEATURES>             Features to extract, with commas between them\n"
    ++ "      --ignore-visibility <VISIBILITY>  Visibilities to leave out\n"
    ++ "      --all                             Keep entities of every visibility\n"
    ++ "      --locations                       Record source locations of every entity\n"
    ++ "      --compact                         Print JSON on a single line\n"
    ++ "  -v, --verbose                         Enable verbose output\n\n"
    ++ "Options:\n"
    ++ "  -h, --help     Print help\n"
    ++ "  -V, --version  Print version\n"

def versionText : String :=
  "sveltedoc 0.4.0\n"

/-- Runs a command line without the name of the program. -/
def run (files : Files) (args : List String) : Outcome :=
  match readArgs args with
  | .ok none => { code := 0, stdout := helpText }
  | .ok (some (.parse command)) => runParse files command
  | .ok (some .init) => runInit files
  | .error .help => { code := 0, stdout := helpText }
  | .error .version => { code := 0, stdout := versionText }
  | .error (.misuse error) => failure error.message

/-- The files after a run. -/
def Outcome.after (outcome : Outcome) (files : Files) : Files :=
  match outcome.newConfig with
  | none => files
  | some text =>
    let names := (splitOn '/' files.workFolder).filter (!·.isEmpty)
    { files with root := FileTree.put (.file text.toUTF8) (names ++ [Config.fileName.toList]) files.root }

end ComponentDoc.Cli
