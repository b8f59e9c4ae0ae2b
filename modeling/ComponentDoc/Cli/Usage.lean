import ComponentDoc.Config.Basic

/-!
The commands of the program and the arguments that they take. A value given to an argument is looked at
when the argument after it starts, so that of several mistakes an unknown name comes first.
-/
namespace ComponentDoc.Cli

/-- The settings of the command that documents components. -/
structure ParseCommand where
  paths : List String := []
  version : Option Nat := none
  features : List Feature := []
  ignoredVisibilities : List Visibility := []
  all : Bool := false
  locations : Bool := false
  compact : Bool := false
  verbose : Bool := false
deriving DecidableEq, Repr, Inhabited

inductive Command where
  /-- Documents components. -/
  | parse (command : ParseCommand)
  /-- Writes a configuration file. -/
  | init
deriving DecidableEq, Repr, Inhabited

/-- The options of a configuration with what the command line says instead. -/
def ParseCommand.apply (command : ParseCommand) (options : Options) : Options :=
  { version := command.version.or options.version
    features := if command.features.isEmpty then options.features else command.features
    ignoredVisibilities :=
      if command.all then []
      else if command.ignoredVisibilities.isEmpty then options.ignoredVisibilities
      else command.ignoredVisibilities
    withLocations := command.locations || options.withLocations }

/-- An argument of the command that documents components. -/
inductive Argument where
  | paths
  | version
  | features
  | ignoredVisibilities
  | all
  | locations
  | compact
  | verbose
deriving DecidableEq, Repr, Inhabited

namespace Argument

/-- How messages call an argument. -/
def shown : Argument → String
  | .paths => "[PATHS]..."
  | .version => "--svelte-version <VERSION>"
  | .features => "--features <FEATURES>"
  | .ignoredVisibilities => "--ignore-visibility <IGNORED_VISIBILITIES>"
  | .all => "--all"
  | .locations => "--locations"
  | .compact => "--compact"
  | .verbose => "--verbose"

/-- The argument of a long name. -/
def ofName? : String → Option Argument
  | "svelte-version" => some .version
  | "features" => some .features
  | "ignore-visibility" => some .ignoredVisibilities
  | "all" => some .all
  | "locations" => some .locations
  | "compact" => some .compact
  | "verbose" => some .verbose
  | _ => none

/-- Whether a value follows. -/
def takesValue : Argument → Bool
  | .paths => true
  | .version => true
  | .features => true
  | .ignoredVisibilities => true
  | _ => false

end Argument

/-- A mistake in the command line. -/
inductive UsageError where
  | missingValue (argument : Argument)
  | invalidChoice (value : String) (argument : Argument)
  | invalidNumber (value reason : String) (argument : Argument)
  | unknownArgument (text : String)
  | repeated (argument : Argument)
  | conflict (argument other : Argument)
  | unknownCommand (name : String)
  /-- A value attached to an argument that takes none. -/
  | unexpectedValue (value argument : String)
deriving DecidableEq, Repr, Inhabited

def UsageError.message : UsageError → String
  | .missingValue argument =>
    "a value is required for '" ++ argument.shown ++ "' but none was supplied"
  | .invalidChoice value argument => "invalid value '" ++ value ++ "' for '" ++ argument.shown ++ "'"
  | .invalidNumber value reason argument =>
    "invalid value '" ++ value ++ "' for '" ++ argument.shown ++ "': " ++ reason
  | .unknownArgument text => "unexpected argument '" ++ text ++ "' found"
  | .repeated argument => "the argument '" ++ argument.shown ++ "' cannot be used multiple times"
  | .conflict argument other =>
    "the argument '" ++ argument.shown ++ "' cannot be used with '" ++ other.shown ++ "'"
  | .unknownCommand name => "unrecognized subcommand '" ++ name ++ "'"
  | .unexpectedValue value argument =>
    "unexpected value '" ++ value ++ "' for '" ++ argument ++ "' found; no more were expected"

/-- What keeps a command from being run. -/
inductive Stop where
  | help
  | version
  | misuse (error : UsageError)
deriving DecidableEq, Repr, Inhabited

end ComponentDoc.Cli
