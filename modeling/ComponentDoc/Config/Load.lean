import ComponentDoc.Config.Read
import ComponentDoc.Files.Scan

/-!
The configuration that holds in a folder: that of the nearest folder around it that has one, unless the
top of a repository comes first.
-/
namespace ComponentDoc

open Text

/-- Why a configuration cannot be used. -/
inductive ConfigError where
  | unreadable (path : List Char) (isFolder : Bool)
  | malformed (path : List Char)
  | invalidVersion (version : Nat)
  | invalidIgnore (pattern : String) (fault : Glob.Fault)
  | invalidInclude (pattern : String) (fault : Glob.Fault)
deriving DecidableEq, Repr

namespace ConfigError

/-- A character of a path as a message shows it. -/
def shownChar (c : Char) : List Char :=
  match c with
  | '"' => ['\\', '"']
  | '\\' => ['\\', '\\']
  | '\n' => ['\\', 'n']
  | '\r' => ['\\', 'r']
  | '\t' => ['\\', 't']
  | '\x00' => ['\\', '0']
  | c =>
    if Nat.blt c.toNat 0x20 || (Nat.ble 0x7F c.toNat && Nat.blt c.toNat 0xA0) then
      ['\\', 'u', '\x7b'] ++ Nat.toDigits 16 c.toNat ++ ['\x7d']
    else [c]

/-- A path as a message shows it, in quotes. -/
def shownPath (path : List Char) : String :=
  String.ofList ('"' :: path.flatMap shownChar ++ ['"'])

def message : ConfigError → String
  | .unreadable path _ => "Failed to read config file: " ++ shownPath path
  | .malformed path => "Failed to parse config file: " ++ shownPath path
  | .invalidVersion version =>
    "Invalid 'version': " ++ toString version ++ " (expected 2 or 3)"
  | .invalidIgnore pattern _ => "Invalid glob pattern in 'ignores': \"" ++ pattern ++ "\""
  | .invalidInclude pattern _ => "Invalid glob pattern in 'includes': \"" ++ pattern ++ "\""

/-- What lies behind an error. -/
def reason? : ConfigError → Option String
  | .unreadable _ true => some "Is a directory (os error 21)"
  | .unreadable _ false => some "stream did not contain valid UTF-8"
  | .malformed _ => some "the text is no configuration"
  | .invalidVersion _ => none
  | .invalidIgnore _ fault => some fault.message
  | .invalidInclude _ fault => some fault.message

/-- The message with the reason. -/
def fullMessage (error : ConfigError) : String :=
  match error.reason? with
  | some reason => error.message ++ ": " ++ reason
  | none => error.message

end ConfigError

namespace Config

/-- Refuses the first text that is no pattern. -/
def checkPatterns (refuse : String → Glob.Fault → ConfigError) : List String → Except ConfigError Unit
  | [] => .ok ()
  | text :: texts =>
    match Glob.Pattern.parse text.toList with
    | .ok _ => checkPatterns refuse texts
    | .error fault => .error (refuse text fault)

def checkVersion : Option Nat → Except ConfigError Unit
  | none => .ok ()
  | some version =>
    if version == 2 || version == 3 then .ok () else .error (.invalidVersion version)

/-- A version is 2 or 3, and patterns are valid; an include without a wildcard is no pattern. -/
def validate (config : Config) : Except ConfigError Unit := do
  checkVersion config.version
  checkPatterns .invalidIgnore config.ignores
  checkPatterns .invalidInclude (config.includes.filter fun text => Glob.hasWildcard text.toList)

/-- The configuration that a text spells, if it can be used. -/
def parse (path text : List Char) : Except ConfigError Config :=
  match read? text with
  | none => .error (.malformed path)
  | some config => do
    config.validate
    return config

/-- A configuration, and the folder that its includes are seen from. -/
structure Loaded where
  config : Config
  baseFolder : List Char
  fromFile : Bool

end Config

namespace Files

/-- The text of a file. -/
def text? (files : Files) (path : List Char) : Option String :=
  match files.get? path with
  | some (.file content) => String.fromUTF8? content
  | _ => none

/-- The first configuration file in folders, none of those before it being the top of a repository. -/
def findConfigIn (files : Files) : List (List Char) → Option (List Char)
  | [] => none
  | folder :: folders =>
    let path := Path.join folder Config.fileName.toList
    if files.isThere path then some path
    else if files.isThere (Path.join folder ".git".toList) then none
    else files.findConfigIn folders

/-- The configuration file of the nearest folder around a place that has one. -/
def findConfig? (files : Files) (start : List Char) : Option (List Char) :=
  files.findConfigIn (start :: Path.above start)

/-- Reads a configuration file. -/
def readConfig (files : Files) (path : List Char) : Except ConfigError Config :=
  match files.text? path with
  | some text => Config.parse path text.toList
  | none => .error (.unreadable path (files.isFolder path))

/-- The configuration that holds in a folder. -/
def loadConfig (files : Files) (start : List Char) : Except ConfigError Config.Loaded :=
  match files.findConfig? start with
  | none => .ok ⟨{}, start, false⟩
  | some path => do
    let config ← files.readConfig path
    return ⟨config, (Path.parent? path).getD start, true⟩

end Files

end ComponentDoc
