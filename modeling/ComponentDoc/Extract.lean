import ComponentDoc.Binding.Dialect
import ComponentDoc.Document.Assemble
import ComponentDoc.Document.Locate

/-!
The document of a component: the occurrences of all kinds asked for, in order of their place in the
file, each with the comment that is still free for it, joined into entities.
-/
namespace ComponentDoc

open Text

/-- What to put into a document. -/
structure Options where
  /-- The version of the dialect; it is told from the component if there is none. -/
  version : Option Nat := none
  features : List Feature := Feature.all
  ignoredVisibilities : List Visibility := [.priv, .prot]
  withLocations : Bool := false
deriving DecidableEq, Repr, Inhabited

/-- The kinds of entity asked for, each once. -/
def Options.kinds (options : Options) : List EntityKind :=
  (options.features.filterMap Feature.kind?).eraseDups

/-- A parameter with its type by its default, and what the comment says about it. -/
def ParamBinding.describe (p : ParamBinding) (doc : Option Comment.Doc) : Param :=
  { name := p.name
    type := Script.typeOf? p.default
    description := doc.bind fun d => d.paramDescription? p.name
    isOptional := p.default.isSome || p.isRest }

/-- The type that a comment gives. -/
def keywordType? (doc : Option Comment.Doc) : Option TypeDescriptor := do
  let keyword ← (← doc).keyword? "type"
  TypeDescriptor.ofTag? keyword.description.toList

/-- An occurrence with its comment. -/
def Occurrence.describe (o : Occurrence) (dialect : Dialect) (doc : Option Comment.Doc)
    (location : Option Location) : Finding :=
  let typed := if dialect.typeKeywordCounts o.kind then keywordType? doc else none
  { id := o.id
    name := o.name
    localName := o.localName
    sourceName := o.sourceName
    importPath := o.importPath
    kind := o.kind
    visibility := (doc.bind Comment.Doc.visibility?).getD o.visibility
    isStatic := o.isStatic
    role := o.role
    position := o.ident.start
    type := (typed.or o.declaredType).getD o.inferredType
    doc := doc
    location := location
    params := o.params.map fun p => p.describe doc
    dependencies := o.dependencies }

/-- The comment of an occurrence: one before it, or else one after it on its line. -/
def Occurrence.comment (o : Occurrence) (binder : Comment.Binder) (claimed : List Nat) :
    Option Comment.Doc × List Nat :=
  match binder.bind claimed o.anchors with
  | (some doc, claimed) => (some doc, claimed)
  | (none, claimed) =>
    match o.trailing with
    | some stop => binder.bindTrailing claimed stop
    | none => (none, claimed)

/-- Occurrences with their comments, each in turn taking what those before it left. -/
def findings (dialect : Dialect) (binder : Comment.Binder) (locate : Span → Option Location)
    (claimed : List Nat) : List Occurrence → List Finding
  | [] => []
  | o :: rest =>
    let (doc, claimed) := o.comment binder claimed
    o.describe dialect doc (locate o.ident) :: findings dialect binder locate claimed rest

/-- The dialect asked for, or the one that the component is written in. -/
def Options.dialect (options : Options) (c : Component) : Except ExtractError Dialect :=
  match options.version with
  | some version => Dialect.ofVersion version
  | none => .ok (Dialect.detect c)

/-- Occurrences in order of their place. -/
def sortOccurrences (occurrences : List Occurrence) : List Occurrence :=
  occurrences.mergeSort fun a b => Nat.ble a.ident.start b.ident.start

def Component.binder (c : Component) (dialect : Dialect) : Comment.Binder :=
  ⟨c.source, c.comments, dialect.maxBlankLines⟩

/-- Where a name stands, if places are asked for. -/
def Options.locate (options : Options) (c : Component) (span : Span) : Option Location :=
  if options.withLocations then some (ComponentDoc.locate c.source span) else none

/-- The description of a component, if it is asked for, with the comments that it takes. -/
def Options.description (options : Options) (c : Component) (dialect : Dialect) :
    Option String × List Nat :=
  if options.features.contains .description then dialect.description c (c.binder dialect) []
  else (none, [])

/-- The occurrences of all kinds asked for, with their comments. -/
def Component.findings (c : Component) (options : Options) (dialect : Dialect) :
    Except ExtractError (List Finding) := do
  let occurrences ← options.kinds.mapM (dialect.occurrences c)
  let claimed := (options.description c dialect).2
  return ComponentDoc.findings dialect (c.binder dialect) (options.locate c) claimed
    (sortOccurrences occurrences.flatten)

/-- The entities of a kind, if it is asked for. -/
def Options.entities (options : Options) (found : List Finding) (kind : EntityKind) : List Entity :=
  if options.kinds.contains kind then
    Finding.assemble options.ignoredVisibilities options.withLocations (found.filter (·.kind == kind))
  else []

/-- The document of a component. -/
def extract (c : Component) (options : Options) : Except ExtractError Document := do
  let dialect ← options.dialect c
  let found ← c.findings options dialect
  return { version := dialect.version
           name := if options.features.contains .name then c.name else none
           description := (options.description c dialect).1
           entities := options.entities found }

end ComponentDoc
