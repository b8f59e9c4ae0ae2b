import ComponentDoc.Binding.Declarations
import ComponentDoc.Binding.Symbols

/-!
Definition objects: the object that a script exports as its default. Its members `data`, `computed` and
`methods` list what the component offers.
-/
namespace ComponentDoc

open Text (Span)
open Script

structure Definition where
  script : ScriptBlock
  scope : Nat
  symbols : Symbols
  members : List Member
  /-- Where the export starts. -/
  start : Nat

/-- A function of the top level that a member refers to by name. -/
structure FunctionName where
  name : String
  ident : Span
  start : Nat

/-- What a member of a definition stands for. -/
inductive MemberValue where
  | function (func : Func) (reference : Option FunctionName)
  | object (members : List Member)
  | other

namespace ScriptBlock

/-- The first expression that is exported as the default, and where its export starts. -/
def defaultExport? (script : ScriptBlock) : Option (Expr × Nat) :=
  script.items.findSome? fun item => match item.kind with
    | .exportDefault value => some (value, script.place item.start)
    | _ => none

/-- The definition object of a script. -/
def definition? (script : ScriptBlock) (scope : Nat) : Except ExtractError (Option Definition) :=
  match script.defaultExport? with
  | none => .ok none
  | some (value, start) => do
    let symbols := script.symbols
    match ← symbols.resolve value with
    | .expr (.object _ members) => return some { script, scope, symbols, members, start }
    | _ => return none

end ScriptBlock

/-- Where a member's key stands, for members that have a name. -/
def Script.Member.keySpan : Member → Span
  | .keyValue span key _ => keySpanOr span key
  | .method span key _ => keySpanOr span key
  | .getter span key _ => keySpanOr span key
  | .setter span key _ => keySpanOr span key
  | .shorthand id => id.span
  | .withDefault span _ _ => span
  | .spread span _ => span
where
  keySpanOr (span : Span) : Key → Span
    | .name id => id.span
    | .string lit => lit.span
    | _ => span

def Script.Member.span : Member → Span
  | .keyValue span _ _ => span
  | .method span _ _ => span
  | .getter span _ _ => span
  | .setter span _ _ => span
  | .shorthand id => id.span
  | .withDefault span _ _ => span
  | .spread span _ => span

namespace Definition

/-- The first member of a name. -/
def member? (d : Definition) (name : String) : Option Member :=
  d.members.find? (·.name? == some name)

def valueOf (resolved : Resolved) : MemberValue :=
  match resolved with
  | .expr value =>
    match value.func?, value with
    | some func, _ => .function func none
    | none, .object _ members => .object members
    | none, _ => .other
  | .function name func ident start => .function func (some ⟨name, ident, start⟩)
  | .unknown => .other

def memberValue (d : Definition) (m : Member) : Except ExtractError MemberValue :=
  match m with
  | .method _ _ func => .ok (.function func none)
  | .keyValue _ _ value => (d.symbols.resolve value).map valueOf
  | .shorthand id => (d.symbols.resolveName id.name).map valueOf
  | _ => .ok .other

/-- The object that a function gives back, by its literal or by name. -/
def returnedObject? (d : Definition) (func : Func) : Option (List Member) := do
  let value ← func.returned?
  match value.unwrap with
  | .object _ members => some members
  | .ident _ =>
    match d.symbols.resolve value with
    | .ok (.expr (.object _ members)) => some members
    | _ => none
  | _ => none

/-- The members that `data` starts from. -/
def dataMembers (d : Definition) : Except ExtractError (List Member) :=
  match d.member? "data" with
  | none => .ok []
  | some m => (d.memberValue m).map fun value => match value with
    | .object members => members
    | .function func _ => (d.returnedObject? func).getD []
    | .other => []

/-- The members of the object under a name. -/
def sectionMembers (d : Definition) (name : String) : Except ExtractError (List Member) :=
  match d.member? name with
  | none => .ok []
  | some m => (d.memberValue m).map fun value => match value with
    | .object members => members
    | _ => []

/-- An occurrence of a member by its name. -/
def occurrence (d : Definition) (m : Member) (name : String) (kind : EntityKind) : Occurrence :=
  { Occurrence.ofName (.member name) name kind .pub (d.script.range m.keySpan)
      [d.script.place m.span.start] with
    trailing := some (d.script.place m.span.stop) }

def dataOccurrence (d : Definition) (m : Member) : Option Occurrence :=
  m.name?.map fun name =>
    let o := d.occurrence m name .data
    match m with
    | .keyValue _ _ value => { o with init := some value }
    | .method _ _ _ => { o with declaredType := some .function }
    | .shorthand id =>
      match d.symbols.resolveName id.name with
      | .ok (.expr value) => { o with init := some value }
      | _ => o
    | _ => o

def data (d : Definition) : Except ExtractError (List Occurrence) :=
  d.dataMembers.map (·.filterMap d.dataOccurrence)

/-- The key by which a pattern takes a property out of an object. -/
def propertyName? : PatternProperty → Option String
  | .keyValue key _ => key.name?
  | .shorthand id _ => some id.name
  | .rest _ _ => none

/-- The name of a parameter that takes nothing apart. -/
def plainName? : Pattern → Option String
  | .ident id _ => some id.name
  | .withDefault (.ident id _) _ => some id.name
  | _ => none

/-- What a computed value reads: the keys that its first parameter takes out, or its parameters. -/
def readNames (func : Func) : List String :=
  match func.params with
  | .object _ properties _ :: _ => properties.filterMap propertyName?
  | params => params.filterMap plainName?

def computedOccurrence (d : Definition) (m : Member) : Except ExtractError (Option Occurrence) :=
  match m.name? with
  | none => .ok none
  | some name => (d.memberValue m).map fun value => match value with
    | .function func _ =>
      some { d.occurrence m name .computed with
             init := func.expression?, dependencies := readNames func }
    | _ => none

def computed (d : Definition) : Except ExtractError (List Occurrence) := do
  let members ← d.sectionMembers "computed"
  return (← members.mapM d.computedOccurrence).filterMap id

/-- A method given by the name of a function occurs twice: where the function is declared, and here. -/
def methodOccurrences (d : Definition) (m : Member) : Except ExtractError (List Occurrence) :=
  match m.name? with
  | none => .ok []
  | some name => (d.memberValue m).map fun value => match value with
    | .function func (some ref) =>
      let id := Identity.declared d.scope ref.name
      [{ Occurrence.ofName id ref.name .method .pub ref.ident [ref.start] with
         declaredType := some .function, params := func.paramBindings },
       { d.occurrence m name .method with role := .usage, id := id }]
    | .function func none =>
      [{ d.occurrence m name .method with
         declaredType := some .function, params := func.paramBindings }]
    | _ => []

def methods (d : Definition) : Except ExtractError (List Occurrence) := do
  let members ← d.sectionMembers "methods"
  return (← members.mapM d.methodOccurrences).flatten

end Definition

end ComponentDoc
