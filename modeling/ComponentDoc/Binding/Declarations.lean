import ComponentDoc.Binding.Occurrence
import ComponentDoc.Component.Basic
import ComponentDoc.Script.Binding

/-!
The top level of a script: what it declares, imports, exports by name and assigns to. Code inside of
functions and blocks does not count.
-/
namespace ComponentDoc

open Text (Span)
open Script

structure ImportedName where
  localName : String
  /-- The name in the other module, `default` or `*`. -/
  sourceName : String
  path : String
  ident : Span
  anchors : List Nat

/-- What the other module calls an imported name; a default or a namespace has only the local one. -/
def ImportedName.shownName (entry : ImportedName) : String :=
  if entry.sourceName == "default" || entry.sourceName == "*" then entry.localName else entry.sourceName

structure ExportedName where
  localName : String
  exported : String
  /-- The module that the name is passed on from. -/
  source : Option String
  ident : Span
  anchors : List Nat

/-- A top-level `name = value`, perhaps after the label `$`. -/
structure Assignment where
  target : String
  value : Expr
  isReactive : Bool
  ident : Span
  anchors : List Nat

/-- What the top level of a script says. -/
structure Facts where
  declarations : List Occurrence := []
  imports : List ImportedName := []
  exports : List ExportedName := []
  assignments : List Assignment := []

def Facts.append (a b : Facts) : Facts :=
  ⟨a.declarations ++ b.declarations, a.imports ++ b.imports, a.exports ++ b.exports,
   a.assignments ++ b.assignments⟩

/-- The parameters that a pattern stands for, one for each name. -/
def Script.Pattern.params : Pattern → List ParamBinding
  | .ident id _ => [⟨id.name, none, false⟩]
  | .withDefault inner value => inner.params.map fun p => { p with default := some value }
  | .rest _ inner _ => inner.params.map fun p => { p with isRest := true }
  | .object _ properties _ => (propertiesNames properties).map fun id => ⟨id.name, none, false⟩
  | .array _ elements _ => (patternsNames elements).map fun id => ⟨id.name, none, false⟩
  | .hole => []
  | .target _ => []

def Script.Func.paramBindings (func : Func) : List ParamBinding :=
  (func.params.map Pattern.params).flatten

/-- A name bound by a pattern, with the value that it starts from. -/
structure BoundName where
  id : Ident
  init : Option Expr

mutual

/-- The names that a pattern binds. A name on its own takes the value given to the pattern, one that is
taken out of a value has only its own default. -/
def Script.Pattern.bound (init : Option Expr) : Pattern → List BoundName
  | .ident id _ => [⟨id, init⟩]
  | .withDefault inner value => inner.bound (some value)
  | .object _ properties _ => boundByProperties properties
  | .array _ elements _ => boundByElements elements
  | .rest _ inner _ => inner.bound none
  | .hole => []
  | .target _ => []

def boundByElements : List Pattern → List BoundName
  | [] => []
  | p :: ps => p.bound none ++ boundByElements ps

def boundByProperties : List PatternProperty → List BoundName
  | [] => []
  | .keyValue _ value :: ps => value.bound none ++ boundByProperties ps
  | .shorthand id default :: ps => ⟨id, default⟩ :: boundByProperties ps
  | .rest _ inner :: ps => inner.bound none ++ boundByProperties ps

end

namespace ScriptBlock

/-- What is exported where it is declared is public. -/
def visibilityOf (isExported : Bool) : Visibility :=
  if isExported then .pub else .priv

def declaratorNames (script : ScriptBlock) (scope : Nat) (isExported : Bool)
    (start statementStart : Nat) : Declarator → List Occurrence
  | .mk span pattern init =>
    (pattern.bound init).map fun b =>
      { Occurrence.ofName (.declared scope b.id.name) b.id.name .data (visibilityOf isExported)
          (script.range b.id.span)
          [script.place span.start, script.place start, script.place statementStart] with
        init := b.init, isStatic := script.isModule }

/-- The names that a declaration introduces. -/
def declared (script : ScriptBlock) (scope : Nat) (isExported : Bool) (statementStart : Nat) :
    Decl → List Occurrence
  | .vars start _ declarators =>
    (declarators.map (script.declaratorNames scope isExported start statementStart)).flatten
  | .function start name func =>
    [{ Occurrence.ofName (.declared scope name.name) name.name .method (visibilityOf isExported)
         (script.range name.span) [script.place start, script.place statementStart] with
       declaredType := some .function, params := func.paramBindings, isStatic := script.isModule }]
  | .classDecl _ _ => []
  | .compound _ => []

def importedName (script : ScriptBlock) (path : String) (statementStart : Nat)
    (s : ImportSpecifier) : Option ImportedName :=
  let entry (sourceName : String) : ImportedName :=
    ⟨s.binding.name, sourceName, path, script.range s.binding.span,
     [script.place s.start, script.place statementStart]⟩
  match s.imported with
  | .default => some (entry "default")
  | .namespace => some (entry "*")
  | .member _ true => none
  | .member name false => some (entry ((name.map ModuleName.text).getD s.binding.name))

/-- The names that an import binds; those of types alone do not count. -/
def importedNames (script : ScriptBlock) (statementStart : Nat) (entry : Import) :
    List ImportedName :=
  if entry.typeOnly then []
  else match entry.source.value.text? with
    | some path => entry.specifiers.filterMap (script.importedName path statementStart)
    | none => []

def exportedName (script : ScriptBlock) (source : Option String) (statementStart : Nat) :
    ExportSpecifier → Option ExportedName
  | .member _ _ _ true => none
  | .member start name exported false =>
    some ⟨name.text, (exported.map ModuleName.text).getD name.text, source, script.range name.span,
          [script.place start, script.place statementStart]⟩
  | .namespace start name =>
    some ⟨"*", name.text, source, script.range name.span,
          [script.place start, script.place statementStart]⟩

def exportedNames (script : ScriptBlock) (statementStart : Nat) (list : ExportList) :
    List ExportedName :=
  if list.typeOnly then []
  else list.specifiers.filterMap
    (script.exportedName (list.source.bind (·.value.text?)) statementStart)

/-- An expression that gives a variable a new value. -/
def assignment? (script : ScriptBlock) (statementStart : Nat) (isReactive : Bool) (e : Expr) :
    Option Assignment :=
  match e.unwrap with
  | .assign "=" (.ident id _) value =>
    some ⟨id.name, value, isReactive, script.range id.span, [script.place statementStart]⟩
  | _ => none

def itemFacts (script : ScriptBlock) (scope : Nat) (item : Item) : Facts :=
  match item.kind with
  | .statement (.declaration decl) =>
    { declarations := script.declared scope false item.start decl }
  | .exportDecl decl => { declarations := script.declared scope true item.start decl }
  | .exportList list => { exports := script.exportedNames item.start list }
  | .imports entry => { imports := script.importedNames item.start entry }
  | .statement (.expr _ value) =>
    { assignments := (script.assignment? item.start false value).toList }
  | .statement (.labeled label (.expr _ value)) =>
    if label.name == "$" then { assignments := (script.assignment? item.start true value).toList }
    else {}
  | _ => {}

/-- What the top level of a script says, the script having the number `scope`. -/
def facts (script : ScriptBlock) (scope : Nat) : Facts :=
  (script.items.map (script.itemFacts scope)).foldr Facts.append {}

end ScriptBlock

end ComponentDoc
