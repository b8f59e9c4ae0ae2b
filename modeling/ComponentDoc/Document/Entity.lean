import ComponentDoc.Comment.Doc
import ComponentDoc.Document.TypeDescriptor

namespace ComponentDoc

/-- Where a name stands, in characters from the start of the file. -/
structure Location where
  start : Nat
  stop : Nat
deriving DecidableEq, Repr, Inhabited

structure Param where
  name : String
  type : TypeDescriptor
  description : Option String
  isOptional : Bool

/-- One thing that a component offers or uses. -/
structure Entity where
  name : String
  localName : Option String
  /-- The name in the module that it is imported from. -/
  sourceName : Option String
  importPath : Option String
  kind : EntityKind
  visibility : Visibility
  isStatic : Bool
  type : TypeDescriptor
  description : Option String
  keywords : List Comment.Keyword
  locations : Option (List Location)
  params : List Param
  dependencies : List String

structure Document where
  version : Nat
  name : Option String
  description : Option String
  /-- The entities of each kind. -/
  entities : EntityKind → List Entity

end ComponentDoc
