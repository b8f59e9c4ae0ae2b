import ComponentDoc.Component.Basic
import ComponentDoc.Script.Binding
import ComponentDoc.Script.Value

namespace ComponentDoc

open Text (Span)
open Script

inductive Symbol where
  | var (init : Option Expr) (span : Span)
  | function (func : Func) (ident : Span) (start : Nat)
  | imported

/-- Names in the order in which they are bound; a later entry replaces an earlier one. -/
structure Symbols where
  entries : List (String × Symbol)

/-- What an expression is once names are followed. -/
inductive Resolved where
  | expr (value : Expr)
  | function (name : String) (func : Func) (ident : Span) (start : Nat)
  /-- Imported, declared without a value, or too many names away. -/
  | unknown

namespace Symbols

def get? (symbols : Symbols) (name : String) : Option Symbol :=
  (symbols.entries.reverse.find? (·.1 == name)).map (·.2)

/-- How many names are followed from one to the next. -/
def maxHops : Nat :=
  8

/-- What a name stands for, following at most so many names. -/
def follow (symbols : Symbols) : Nat → String → Except ExtractError Resolved
  | 0, _ => .ok .unknown
  | n + 1, name =>
    match symbols.get? name with
    | some (.var (some init) _) =>
      match init.unwrap with
      | .ident id => symbols.follow n id.name
      | value => .ok (.expr value)
    | some (.var none _) => .ok .unknown
    | some .imported => .ok .unknown
    | some (.function func ident start) => .ok (.function name func ident start)
    | none => .error (.unresolvedReference name)

def resolveName (symbols : Symbols) (name : String) : Except ExtractError Resolved :=
  symbols.follow maxHops name

/-- What an expression stands for: itself, unless it is a name. -/
def resolve (symbols : Symbols) (e : Expr) : Except ExtractError Resolved :=
  match e.unwrap with
  | .ident id => symbols.resolveName id.name
  | value => .ok (.expr value)

end Symbols

namespace ScriptBlock

def declaratorSymbols (script : ScriptBlock) : Declarator → List (String × Symbol)
  | .mk _ (.ident id _) init => [(id.name, .var init (script.range id.span))]
  | .mk span pattern _ => pattern.names.map fun id => (id.name, .var none (script.range span))

def declSymbols (script : ScriptBlock) : Decl → List (String × Symbol)
  | .vars _ _ declarators => (declarators.map script.declaratorSymbols).flatten
  | .function start name func =>
    [(name.name, .function func (script.range name.span) (script.place start))]
  | .classDecl _ _ => []
  | .compound _ => []

def itemSymbols (script : ScriptBlock) (item : Item) : List (String × Symbol) :=
  match item.kind with
  | .statement (.declaration decl) => script.declSymbols decl
  | .exportDecl decl => script.declSymbols decl
  | .imports entry => entry.specifiers.map fun s => (s.binding.name, .imported)
  | _ => []

/-- The names bound at the top level of a script. -/
def symbols (script : ScriptBlock) : Symbols :=
  ⟨(script.items.map script.itemSymbols).flatten⟩

end ScriptBlock

end ComponentDoc
