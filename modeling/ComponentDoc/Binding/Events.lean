import ComponentDoc.Binding.Occurrence
import ComponentDoc.Component.Basic

/-!
Events that a script emits, at any depth of its code. The name of the event is the first argument of the
call: a string literal, or a constant of the top level that holds one.
-/
namespace ComponentDoc

open Text (Span)
open Script

/-- How events are emitted. -/
inductive Emitter where
  /-- `this.fire(name)` -/
  | thisFire
  /-- A call of one of these names. -/
  | dispatchers (names : List String)

/-- The function that makes a dispatcher. -/
def dispatcherFactory : String :=
  "createEventDispatcher"

namespace ScriptBlock

/-- The declarations of the top level, exported or not. -/
def topLevel (script : ScriptBlock) : List Decl :=
  script.items.filterMap fun item => match item.kind with
    | .statement (.declaration decl) => some decl
    | .exportDecl decl => some decl
    | _ => none

/-- The local name of an import of the dispatcher factory. -/
def factoryName? (s : ImportSpecifier) : Option String :=
  match s.imported with
  | .member name _ =>
    if (name.map ModuleName.text).getD s.binding.name == dispatcherFactory then some s.binding.name
    else none
  | _ => none

/-- The names under which the dispatcher factory is known. -/
def factories (script : ScriptBlock) : List String :=
  dispatcherFactory :: (script.items.map fun item => match item.kind with
    | .imports entry => entry.specifiers.filterMap factoryName?
    | _ => []).flatten

/-- The variable that is bound to a new dispatcher. -/
def dispatcher? (factories : List String) : Declarator → Option String
  | .mk _ (.ident id _) (some init) =>
    match init.unwrap with
    | .call callee _ _ =>
      match callee.unwrap with
      | .ident factory => if factories.contains factory.name then some id.name else none
      | _ => none
    | _ => none
  | _ => none

/-- The variables of the top level that are bound to dispatchers. -/
def dispatchers (script : ScriptBlock) : List String :=
  (script.topLevel.map fun decl => match decl with
    | .vars _ _ declarators => declarators.filterMap (dispatcher? script.factories)
    | _ => []).flatten.eraseDups

/-- The constant that a declarator binds to a string. -/
def constant? : Declarator → Option (String × String)
  | .mk _ (.ident id _) (some init) => init.stringLiteral?.map fun value => (id.name, value)
  | _ => none

/-- The constants of the top level that hold a string, in order of declaration. -/
def constants (script : ScriptBlock) : List (String × String) :=
  (script.topLevel.map fun decl => match decl with
    | .vars _ true declarators => declarators.filterMap constant?
    | _ => []).flatten

end ScriptBlock

/-- The value of a constant; a later declaration replaces an earlier one. -/
def constantValue? (constants : List (String × String)) (name : String) : Option String :=
  (constants.reverse.find? (·.1 == name)).map (·.2)

/-- Whether a callee emits events. -/
def Emitter.emits (emitter : Emitter) (callee : Expr) : Bool :=
  match emitter, callee.unwrap with
  | .dispatchers names, .ident id => names.contains id.name
  | .thisFire, .member (.this _) property => property == "fire"
  | _, _ => false

namespace ScriptBlock

/-- The name of an event and where it stands, quotes excluded. -/
def eventName? (script : ScriptBlock) (constants : List (String × String)) (argument : Expr) :
    Option (String × Span) :=
  match argument.unwrap with
  | .string lit =>
    let range := script.range lit.span
    lit.value.text?.map fun name => (name, ⟨range.start + 1, range.stop - 1⟩)
  | .ident id => (constantValue? constants id.name).map fun name => (name, script.range id.span)
  | _ => none

/-- The event that a call emits. -/
def event? (script : ScriptBlock) (constants : List (String × String)) (emitter : Emitter) :
    Visit → Option Occurrence
  | .ident _ => none
  | .call statement callee arguments =>
    if emitter.emits callee then
      match arguments with
      | argument :: _ =>
        (script.eventName? constants argument).map fun (name, ident) =>
          Occurrence.ofName (.named name) name .event .pub ident
            (script.place callee.start :: (statement.map script.place).toList)
      | [] => none
    else none

/-- The events that a script emits, an outer call before the calls in its arguments. -/
def events (script : ScriptBlock) (emitter : Emitter) : List Occurrence :=
  ((script.items.map Item.visits).flatten).filterMap (script.event? script.constants emitter)

end ScriptBlock

end ComponentDoc
