import ComponentDoc.Extract
import ComponentDoc.Json.Print

namespace ComponentDoc

structure Config where
  version : Option Nat := none
  features : List Feature := Feature.all
  ignoredVisibilities : List Visibility := [.priv, .prot]
  includeSourceLocations : Bool := false
  /-- Paths or patterns, seen from the folder of the configuration. -/
  includes : List String := ["src"]
  /-- Patterns of files to leave out. -/
  ignores : List String := ["**/node_modules/**"]
deriving DecidableEq, Repr, Inhabited

namespace Config

/-- The name of the file that holds a configuration. -/
def fileName : String :=
  ".sveltedocrc.json"

def options (config : Config) : Options :=
  { version := config.version
    features := config.features
    ignoredVisibilities := config.ignoredVisibilities
    withLocations := config.includeSourceLocations }

def toJson (config : Config) : Json :=
  .record [
    ("version", .optional .nat config.version),
    ("features", .texts (config.features.map Feature.label)),
    ("ignoredVisibilities", .texts (config.ignoredVisibilities.map Visibility.name)),
    ("includeSourceLocations", .bool config.includeSourceLocations),
    ("includes", .texts config.includes),
    ("ignores", .texts config.ignores)]

/-- The text of the configuration that holds when there is none. -/
def defaultText : String :=
  (toJson {}).pretty

end Config

end ComponentDoc
