namespace ComponentDoc

/-- How exposed an entity is. -/
inductive Visibility where
  | priv
  | prot
  | pub
deriving DecidableEq, Repr, Inhabited

namespace Visibility

def name : Visibility → String
  | .priv => "private"
  | .prot => "protected"
  | .pub => "public"

def ofName? : String → Option Visibility
  | "private" => some .priv
  | "protected" => some .prot
  | "public" => some .pub
  | _ => none

/-- Exposure as a number, the least exposed first. -/
def rank : Visibility → Nat
  | .priv => 0
  | .prot => 1
  | .pub => 2

/-- The more exposed of two. -/
def max (a b : Visibility) : Visibility :=
  if Nat.ble a.rank b.rank then b else a

def all : List Visibility :=
  [.priv, .prot, .pub]

end Visibility

inductive EntityKind where
  | data
  | computed
  | method
  | event
  | slot
deriving DecidableEq, Repr, Inhabited

namespace EntityKind

def name : EntityKind → String
  | .data => "data"
  | .computed => "computed"
  | .method => "method"
  | .event => "event"
  | .slot => "slot"

def all : List EntityKind :=
  [.data, .computed, .method, .event, .slot]

def ofName? (name : String) : Option EntityKind :=
  all.find? (·.name == name)

end EntityKind

/-- A part of a document that can be asked for. -/
inductive Feature where
  | name
  | description
  | data
  | computed
  | methods
  | events
  | slots
deriving DecidableEq, Repr, Inhabited

namespace Feature

def label : Feature → String
  | .name => "name"
  | .description => "description"
  | .data => "data"
  | .computed => "computed"
  | .methods => "methods"
  | .events => "events"
  | .slots => "slots"

def all : List Feature :=
  [.name, .description, .data, .computed, .methods, .events, .slots]

def ofLabel? (label : String) : Option Feature :=
  all.find? (·.label == label)

/-- The kind of entity that the feature lists, if it lists any. -/
def kind? : Feature → Option EntityKind
  | .data => some .data
  | .computed => some .computed
  | .methods => some .method
  | .events => some .event
  | .slots => some .slot
  | .name => none
  | .description => none

end Feature

end ComponentDoc
