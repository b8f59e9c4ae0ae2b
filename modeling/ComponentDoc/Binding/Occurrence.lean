import ComponentDoc.Document.Entity
import ComponentDoc.Script.Infer
import ComponentDoc.Text.Offset

/-!
Occurrences of what a component offers: a declaration, an export of it, a dispatched event, a slot. The
occurrences of one identity together make one entity of the document.
-/
namespace ComponentDoc

open Text (Span)
open Script (Expr)

/-- What a name stands for, whatever it is exported as. -/
inductive Identity where
  /-- Declared in the script of this number. -/
  | declared (scope : Nat) (name : String)
  /-- Imported; the name is the one in the other module, `default` or `*`. -/
  | imported (path name : String)
  /-- A member of a definition object. -/
  | member (name : String)
  /-- An event or slot. -/
  | named (name : String)
deriving DecidableEq, Repr, Inhabited

/-- Whether an occurrence introduces what it names. -/
inductive Role where
  | declaration
  | usage
deriving DecidableEq, Repr, Inhabited

def Role.rank : Role → Nat
  | .declaration => 0
  | .usage => 1

/-- A parameter as its pattern tells it. -/
structure ParamBinding where
  name : String
  default : Option Expr
  isRest : Bool

structure Occurrence where
  id : Identity
  name : String
  localName : Option String := none
  sourceName : Option String := none
  importPath : Option String := none
  kind : EntityKind
  visibility : Visibility
  isStatic : Bool := false
  role : Role := .declaration
  /-- Where the name stands. -/
  ident : Span
  /-- The places before which a comment may stand, the nearest to the name first. -/
  anchors : List Nat
  init : Option Expr := none
  /-- The last value assigned at the top level. -/
  reassigned : Option Expr := none
  /-- The type that the form of the declaration fixes. -/
  declaredType : Option TypeDescriptor := none
  params : List ParamBinding := []
  dependencies : List String := []
  /-- The end of the declaration, after which a comment may stand on the same line. -/
  trailing : Option Nat := none

namespace Occurrence

/-- Adds places that are not there yet. -/
def addAnchors (anchors : List Nat) : List Nat → List Nat
  | [] => anchors
  | a :: rest => addAnchors (if anchors.contains a then anchors else anchors ++ [a]) rest

/-- An occurrence of a name, with the places around it that a comment may precede. -/
def ofName (id : Identity) (name : String) (kind : EntityKind) (visibility : Visibility) (ident : Span)
    (anchors : List Nat) : Occurrence :=
  { id, name, kind, visibility, ident, anchors := addAnchors [ident.start] anchors }

/-- The type by the values of the variable. -/
def inferredType (o : Occurrence) : TypeDescriptor :=
  Script.bindingType o.init o.reassigned

end Occurrence

end ComponentDoc
