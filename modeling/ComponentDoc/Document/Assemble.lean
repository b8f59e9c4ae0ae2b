import ComponentDoc.Binding.Occurrence

/-!
Entities from occurrences. All occurrences of one identity make one entity: what it is comes from its
declaration, what it is called from its first use, and it is as exposed as its most exposed occurrence.
-/
namespace ComponentDoc

/-- An occurrence with its comment, type and place. -/
structure Finding where
  id : Identity
  name : String
  localName : Option String
  sourceName : Option String
  importPath : Option String
  kind : EntityKind
  visibility : Visibility
  isStatic : Bool
  role : Role
  position : Nat
  type : TypeDescriptor
  doc : Option Comment.Doc
  location : Option Location
  params : List Param
  dependencies : List String

namespace Finding

/-- Declarations come before uses, and each in order of position. -/
def precedes (a b : Finding) : Bool :=
  Nat.blt a.role.rank b.role.rank || (a.role.rank == b.role.rank && Nat.ble a.position b.position)

/-- The most exposed visibility among findings. -/
def exposure (start : Visibility) (findings : List Finding) : Visibility :=
  findings.foldl (fun v f => v.max f.visibility) start

/-- The entity of findings in order, of which `primary` is the first. -/
def merge (withLocations : Bool) (primary : Finding) (group : List Finding) : Entity :=
  let shown := (group.find? (·.role == .usage)).getD primary
  let localName := shown.localName.getD primary.name
  let doc := group.findSome? Finding.doc
  { name := shown.name
    localName := if localName == shown.name then none else some localName
    sourceName := group.findSome? Finding.sourceName
    importPath := group.findSome? Finding.importPath
    kind := primary.kind
    visibility := exposure primary.visibility group
    isStatic := group.any Finding.isStatic
    type := primary.type
    description := doc.bind Comment.Doc.description
    keywords := (doc.map Comment.Doc.keywords).getD []
    locations := if withLocations then some (group.filterMap Finding.location) else none
    params := primary.params
    dependencies := primary.dependencies }

/-- The findings of one identity as an entity. -/
def entity? (withLocations : Bool) (group : List Finding) : Option Entity :=
  let ordered := group.mergeSort precedes
  ordered.head?.map fun primary => merge withLocations primary ordered

/-- The entities of findings, in the order in which each identity is first met; those of an ignored
visibility are left out. -/
def assemble (ignored : List Visibility) (withLocations : Bool) (findings : List Finding) :
    List Entity :=
  let ids := (findings.map Finding.id).eraseDups
  let entities := ids.filterMap fun id => entity? withLocations (findings.filter (·.id == id))
  entities.filter fun e => !ignored.contains e.visibility

end Finding

end ComponentDoc
