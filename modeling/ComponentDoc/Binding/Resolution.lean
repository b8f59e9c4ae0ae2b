import ComponentDoc.Binding.Declarations

/-!
Linking the top level of a script: exports to what they name, assignments to the variables that they
change, and `$: name = value` to a computed value where nothing else declares the name. The result lists
the declarations, the imports that are exported, the exports, and the computed values.
-/
namespace ComponentDoc

open Script

namespace Facts

/-- The first declaration of a name. -/
def declaration? (facts : Facts) (name : String) : Option Occurrence :=
  facts.declarations.find? (·.name == name)

/-- The import that binds a name last. -/
def import? (facts : Facts) (name : String) : Option ImportedName :=
  facts.imports.reverse.find? (·.localName == name)

/-- A name is declared or imported. -/
def binds (facts : Facts) (name : String) : Bool :=
  (facts.declaration? name).isSome || (facts.import? name).isSome

/-- The value that is assigned to a name last. -/
def lastValue? (facts : Facts) (name : String) : Option Expr :=
  (facts.assignments.reverse.find? (·.target == name)).map (·.value)

/-- Each name's first declaration, with the value assigned to it last, if any; `seen` holds the names met. -/
def reassigned (facts : Facts) (seen : List String) : List Occurrence → List Occurrence
  | [] => []
  | d :: ds =>
    let first :=
      if seen.contains d.name then d
      else { d with reassigned := (facts.lastValue? d.name).or d.reassigned }
    first :: facts.reassigned (d.name :: seen) ds

/-- The names bound in the script that the value of an assignment refers to. -/
def dependencies (facts : Facts) (a : Assignment) : List String :=
  (a.value.references.filter (· != a.target)).filter facts.binds

/-- Reactive assignments that introduce their target. -/
def introduces (facts : Facts) (a : Assignment) : Bool :=
  a.isReactive && !facts.binds a.target

/-- An occurrence for each assignment; the first to a target declares it. -/
def computedFrom (facts : Facts) (scope : Nat) (seen : List String) :
    List Assignment → List Occurrence
  | [] => []
  | a :: rest =>
    let o := { Occurrence.ofName (.declared scope a.target) a.target .computed .priv a.ident a.anchors with
      init := some a.value
      dependencies := facts.dependencies a
      role := if seen.contains a.target then .usage else .declaration }
    o :: facts.computedFrom scope (a.target :: seen) rest

def computed (facts : Facts) (scope : Nat) : List Occurrence :=
  facts.computedFrom scope [] (facts.assignments.filter facts.introduces)

/-- What an exported name stands for. -/
inductive ExportTarget where
  | passedOn (path : String)
  | declared (declaration : Occurrence)
  | imported (entry : ImportedName)

def exportTarget? (facts : Facts) (e : ExportedName) : Option ExportTarget :=
  match e.source with
  | some path => some (.passedOn path)
  | none =>
    match facts.declaration? e.localName with
    | some d => some (.declared d)
    | none => (facts.import? e.localName).map .imported

def exportTarget (facts : Facts) (e : ExportedName) : Except ExtractError (ExportedName × ExportTarget) :=
  match facts.exportTarget? e with
  | some target => .ok (e, target)
  | none => .error (.unresolvedReference e.localName)

def importOccurrence (entry : ImportedName) : Occurrence :=
  { Occurrence.ofName (.imported entry.path entry.sourceName) entry.localName .data .priv entry.ident
      entry.anchors with
    sourceName := some entry.shownName
    importPath := some entry.path }

def exportOccurrence (e : ExportedName) (target : ExportTarget) : Occurrence :=
  let localName := if e.localName == e.exported then none else some e.localName
  match target with
  | .passedOn path =>
    { Occurrence.ofName (.imported path e.localName) e.exported .data .pub e.ident e.anchors with
      sourceName := some e.localName
      importPath := some path }
  | .declared d =>
    { Occurrence.ofName d.id e.exported d.kind .pub e.ident e.anchors with
      role := .usage
      localName := localName
      isStatic := d.isStatic }
  | .imported entry =>
    { Occurrence.ofName (.imported entry.path entry.sourceName) e.exported .data .pub e.ident e.anchors with
      role := .usage
      localName := localName
      sourceName := some entry.shownName
      importPath := some entry.path }

def ExportTarget.import? : ExportTarget → Option ImportedName
  | .imported entry => some entry
  | _ => none

/-- Keeps the first import of each local name. -/
def distinctImports (seen : List String) : List ImportedName → List ImportedName
  | [] => []
  | i :: rest =>
    if seen.contains i.localName then distinctImports seen rest
    else i :: distinctImports (i.localName :: seen) rest

/-- The occurrences in a script; an export that names nothing is an error. -/
def resolve (facts : Facts) (scope : Nat) : Except ExtractError (List Occurrence) := do
  let exports ← facts.exports.mapM facts.exportTarget
  let imports := distinctImports [] (exports.filterMap fun (_, target) => target.import?)
  return facts.reassigned [] facts.declarations
    ++ imports.map importOccurrence
    ++ exports.map (fun (e, target) => exportOccurrence e target)
    ++ facts.computed scope

end Facts

end ComponentDoc
