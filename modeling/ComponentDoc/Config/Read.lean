import ComponentDoc.Config.Basic
import ComponentDoc.Json.Read

/-!
Reading a configuration. It is an object whose members may be missing and stand in any order, or an array
of their values in the fixed order. Members of other names do not matter; a name is not given twice.
-/
namespace ComponentDoc.Config

open Text (StringValue)

/-- The members of a configuration in their fixed order. -/
def memberNames : List String :=
  ["version", "features", "ignoredVisibilities", "includeSourceLocations", "includes", "ignores"]

def text? : Json → Option String
  | .string value => value.text?
  | _ => none

/-- The name of a choice: a string, or an object with the name as its only key and nothing in it. -/
def choice? : Json → Option String
  | .string value => value.text?
  | .object [(key, .null)] => key.text?
  | _ => none

def list? {α : Type} (decode : Json → Option α) : Json → Option (List α)
  | .array items => items.mapM decode
  | _ => none

def bool? : Json → Option Bool
  | .bool value => some value
  | _ => none

/-- The number that digits spell. -/
def decimal (digits : List Char) : Nat :=
  digits.foldl (fun n c => 10 * n + (c.toNat - 48)) 0

/-- A version fits into a byte and is spelled with digits alone. -/
def version? : Json → Option (Option Nat)
  | .null => some none
  | .number spelling =>
    if spelling.all Text.isAsciiDigit && Nat.ble (decimal spelling) 255 then
      some (some (decimal spelling))
    else none
  | _ => none

/-- The value of a member, or the default if it is missing. -/
def memberOr {α : Type} (default : α) (decode : Json → Option α) : Option Json → Option α
  | some json => decode json
  | none => some default

/-- The configuration with these members. -/
def ofMembers? (member : String → Option Json) : Option Config := do
  let defaults : Config := {}
  return {
    version := ← memberOr defaults.version version? (member "version")
    features := ← memberOr defaults.features (list? fun j => (choice? j).bind Feature.ofLabel?)
      (member "features")
    ignoredVisibilities := ← memberOr defaults.ignoredVisibilities
      (list? fun j => (choice? j).bind Visibility.ofName?) (member "ignoredVisibilities")
    includeSourceLocations := ← memberOr defaults.includeSourceLocations bool?
      (member "includeSourceLocations")
    includes := ← memberOr defaults.includes (list? text?) (member "includes")
    ignores := ← memberOr defaults.ignores (list? text?) (member "ignores") }

/-- Each key is a text, and each member is given once at most. -/
def areSingle (members : List (StringValue × Json)) : Bool :=
  members.all (fun m => m.1.text?.isSome)
    && memberNames.all fun name =>
      Nat.ble (members.countP fun m => m.1.text? == some name) 1

def ofJson? : Json → Option Config
  | .object members =>
    if areSingle members then
      ofMembers? fun name => (members.find? fun m => m.1.text? == some name).map (·.2)
    else none
  | .array items =>
    if Nat.ble items.length memberNames.length then
      ofMembers? fun name => ((memberNames.zip items).find? (·.1 == name)).map (·.2)
    else none
  | _ => none

/-- The configuration that a text spells. -/
def read? (text : List Char) : Option Config :=
  (Json.read? text).bind ofJson?

end ComponentDoc.Config
