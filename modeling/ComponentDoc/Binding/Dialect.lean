import ComponentDoc.Binding.Definition
import ComponentDoc.Binding.Events
import ComponentDoc.Binding.Markup
import ComponentDoc.Binding.Resolution
import ComponentDoc.Comment.Binder

/-!
The two ways of writing a component. In the second version a definition object lists what the component
offers, in the third its scripts do so by what they declare and export.
-/
namespace ComponentDoc

open Text

inductive Dialect where
  | v2
  | v3
deriving DecidableEq, Repr, Inhabited

/-- Numbers the scripts of a component. -/
def numbered {α : Type} (n : Nat) : List α → List (Nat × α)
  | [] => []
  | a :: rest => (n, a) :: numbered (n + 1) rest

namespace Component

def scopes (c : Component) : List (Nat × ScriptBlock) :=
  numbered 0 c.scripts

/-- The definition objects of the scripts. -/
def definitions (c : Component) : Except ExtractError (List Definition) := do
  let found ← c.scopes.mapM fun (scope, script) => script.definition? scope
  return found.filterMap id

/-- Some script has a definition object. -/
def hasDefinition (c : Component) : Bool :=
  c.scopes.any fun (scope, script) => match script.definition? scope with
    | .ok (some _) => true
    | _ => false

/-- What the definition objects list. -/
def defined (c : Component) (list : Definition → Except ExtractError (List Occurrence)) :
    Except ExtractError (List Occurrence) := do
  let definitions ← c.definitions
  return (← definitions.mapM list).flatten

/-- The occurrences of a kind that the scripts declare. -/
def declared (c : Component) (kind : EntityKind) : Except ExtractError (List Occurrence) := do
  let found ← c.scopes.mapM fun (scope, script) => (script.facts scope).resolve scope
  return found.flatten.filter (·.kind == kind)

end Component

namespace Dialect

def version : Dialect → Nat
  | .v2 => 2
  | .v3 => 3

def ofVersion (version : Nat) : Except ExtractError Dialect :=
  match version with
  | 2 => .ok .v2
  | 3 => .ok .v3
  | other => .error (.unsupportedDialect other)

/-- A definition object or a double brace in the markup means the second version. -/
def detect (c : Component) : Dialect :=
  if c.hasDefinition || hasMark ['\x7b', '\x7b'] c.markup then .v2 else .v3

/-- Blank lines allowed between a comment and what it documents. -/
def maxBlankLines : Dialect → Nat
  | .v2 => 0
  | .v3 => 1

/-- Whether a `@type` keyword replaces the inferred type. -/
def typeKeywordCounts : Dialect → EntityKind → Bool
  | .v2, .data => true
  | _, _ => false

def occurrences (dialect : Dialect) (c : Component) (kind : EntityKind) :
    Except ExtractError (List Occurrence) :=
  match dialect, kind with
  | .v2, .data => c.defined Definition.data
  | .v2, .computed => c.defined Definition.computed
  | .v2, .method => c.defined Definition.methods
  | .v2, .event => .ok ((c.scripts.map (·.events .thisFire)).flatten ++ c.firedEvents)
  | .v3, .data => c.declared .data
  | .v3, .computed => c.declared .computed
  | .v3, .method => c.declared .method
  | .v3, .event =>
    .ok ((c.scripts.map fun s => s.events (.dispatchers s.dispatchers)).flatten ++ c.forwardedEvents)
  | _, .slot => .ok c.slots

/-- The mark of the comment that describes a component. -/
def componentMark : List Char :=
  "@component".toList

/-- The text of a comment after the mark. -/
def markedText? (comment : Comment.Source) : Option (List Char) :=
  after? componentMark (trimStart comment.text)

/-- The description of a component, with the comment that it is taken from claimed: the comment before
the definition object, or the markup comment that starts with the mark. -/
def description (dialect : Dialect) (c : Component) (binder : Comment.Binder) (claimed : List Nat) :
    Option String × List Nat :=
  match dialect with
  | .v2 =>
    match c.definitions with
    | .ok (definition :: _) =>
      let (doc, claimed) := binder.bind claimed [definition.start]
      (doc.bind Comment.Doc.description, claimed)
    | _ => (none, claimed)
  | .v3 =>
    match c.markupComments.find? fun comment => (markedText? comment).isSome with
    | none => (none, claimed)
    | some comment =>
      let (_, claimed) := Comment.Binder.claim claimed comment.span.start
      ((markedText? comment).bind fun text => (Comment.Doc.parse text).description, claimed)

end Dialect

end ComponentDoc
