import ComponentDoc.Binding.Occurrence
import ComponentDoc.Component.Tag

namespace ComponentDoc.Component

open Text

/-- The name of a slot that has none. -/
def defaultSlot : String :=
  "default"

/-- An occurrence of a name that stands at an offset in a tag. -/
def markupOccurrence (tag : Tag) (kind : EntityKind) (name : List Char) (start : Nat) : Occurrence :=
  let text := String.ofList name
  Occurrence.ofName (.named text) text kind .pub ⟨start, start + byteLength name⟩ [tag.start]

/-- The slot that a tag opens. -/
def slot (tag : Tag) : Occurrence :=
  match (tag.attributes.find? (·.name == "name".toList)).bind Attribute.value with
  | some (c :: name, start) => markupOccurrence tag .slot (c :: name) start
  | _ =>
    Occurrence.ofName (.named defaultSlot) defaultSlot .slot .pub
      ⟨tag.start + 1, tag.start + 1 + byteLength tag.name⟩ [tag.start]

def slots (c : Component) : List Occurrence :=
  (c.tags.filter (·.name == "slot".toList)).map slot

/-- The event that a directive without a handler passes on. -/
def forwarded? (tag : Tag) (a : Attribute) : Option Occurrence :=
  match a.value, after? "on:".toList a.name with
  | none, some directive =>
    match directive.takeWhile (· != '|') with
    | [] => none
    | name => some (markupOccurrence tag .event name (a.start + 3))
  | _, _ => none

def forwardedEvents (c : Component) : List Occurrence :=
  (c.tags.map fun tag => tag.attributes.filterMap (forwarded? tag)).flatten

/-- The name in a call of `fire` at the front of a text, where it stands, and where the call's first
argument ends. -/
def firedAt? (cs : List Char) (offset : Nat) : Option (List Char × Nat × Nat) := do
  let rest ← after? "fire(".toList cs
  let blanks := rest.takeWhile isBlank
  match rest.dropWhile isBlank with
  | quote :: rest =>
    if quote != '"' && quote != '\'' then none
    else
      let name := rest.takeWhile fun c => c != '"' && c != '\''
      let start := offset + 6 + byteLength blanks
      if name.isEmpty || Nat.ble rest.length name.length then none
      else some (name, start, start + byteLength name + 1)
  | [] => none

/-- The names fired in a text that starts at an offset, where `fire` starts a word; what comes before
`taken` belongs to a call already found. -/
def firedFrom (taken : Nat) (previous : Option Char) : List Char → Nat → List (List Char × Nat)
  | [], _ => []
  | c :: cs, offset =>
    if Nat.blt offset taken || previous.any isWordChar then
      firedFrom taken (some c) cs (offset + c.utf8Size)
    else match firedAt? (c :: cs) offset with
      | some (name, start, stop) => (name, start) :: firedFrom stop (some c) cs (offset + c.utf8Size)
      | none => firedFrom taken (some c) cs (offset + c.utf8Size)

/-- The events fired in a handler. -/
def fired (tag : Tag) (a : Attribute) : List Occurrence :=
  match a.value, after? "on:".toList a.name with
  | some (value, start), some _ =>
    (firedFrom 0 none value start).map fun (name, place) => markupOccurrence tag .event name place
  | _, _ => []

def firedEvents (c : Component) : List Occurrence :=
  (c.tags.map fun tag => (tag.attributes.map (fired tag)).flatten).flatten

end ComponentDoc.Component
