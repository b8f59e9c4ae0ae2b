import ComponentDoc.Script.Grammar.Type

namespace ComponentDoc.Script

open Script.Parser

namespace Parser

/-- Runs a parser with labels of its own. -/
def withLabels {α : Type} (labels : List String) (p : Parser α) : Parser α := do
  let old := (← get).labels
  modify ({ · with labels := labels })
  let a ← p
  modify ({ · with labels := old })
  return a

end Parser

/-- What kind of function is read. -/
structure FuncKind where
  isAsync : Bool := false
  isGenerator : Bool := false
  isArrow : Bool := false
  /-- A method, which may refer to the methods that it overrides. -/
  isMethod : Bool := false

/-- What a function allows in its body. -/
def Context.inBody (kind : FuncKind) (c : Context) : Context :=
  { c with
    inAsync := kind.isAsync
    inGenerator := kind.isGenerator
    inFunction := true
    breakAllowed := false
    continueAllowed := false
    expectsColon := false
    inStaticBlock := false
    inClassField := kind.isArrow && c.inClassField
    superAllowed := kind.isMethod || (kind.isArrow && c.superAllowed)
    newTargetAllowed := !kind.isArrow || c.newTargetAllowed }

/-- What a function allows in its parameters. -/
def Context.inParams (kind : FuncKind) (c : Context) : Context :=
  { c with
    inAsync := kind.isAsync
    inGenerator := kind.isGenerator
    inFunction := false
    inParameters := true
    superAllowed := kind.isMethod || (kind.isArrow && c.superAllowed) }

def Pattern.isSimple : Pattern → Bool
  | .ident _ _ => true
  | _ => false

def Pattern.hasDefault : Pattern → Bool
  | .withDefault _ _ => true
  | _ => false

/-- A parameter that only tells the type of `this`. -/
def Pattern.isThis : Pattern → Bool
  | .ident id _ => id.name == "this"
  | _ => false

/-- Where the directives at the head of a body ask for strict code. -/
def strictDirective? : List Stmt → Option Nat
  | .expr start (.string lit) :: more =>
    if lit.value == .text "use strict" then some start else strictDirective? more
  | _ => none

namespace Grammar

/-- Statements between braces. -/
def block (g : Grammar) : Parser (List Stmt) := do
  expect "\x7b"
  let statements ← g.repeatWhile (return !(← isPunct "\x7d") && !(← isEof)) (g.statement true)
  expect "\x7d"
  return statements

def bodyBlock (g : Grammar) (kind : FuncKind) (params : List Pattern) : Parser Body := do
  noteIf (← read).ambient .badDeclaration (← offset)
  let statements ← within (fun c => { c.inBody kind with allowIn := true }) (withLabels [] g.block)
  unless params.all Pattern.isSimple do
    if let some start := strictDirective? statements then note .badParameter start
  return .block statements

/-- The body of a function. A typed script may leave it out, and then no parameter has a default. -/
def functionBody (g : Grammar) (kind : FuncKind) (params : List Pattern) : Parser Body := do
  if (← isTypeScript) && !(← isPunct "\x7b") && (← isSemicolon) then
    discard eatSemicolon
    match params.find? Pattern.hasDefault with
    | some param => note .badParameter param.start
    | none => pure ()
    return .absent
  g.bodyBlock kind params

/-- The body of an arrow function, which may be an expression. -/
def arrowBody (g : Grammar) (isAsync : Bool) (params : List Pattern) : Parser Body := do
  let kind : FuncKind := { isAsync, isArrow := true }
  if ← isPunct "\x7b" then g.bodyBlock kind params
  else return .expr (← within (Context.inBody kind) (withLabels [] g.assignment))

/-- A function from its type parameters on; `params` reads what is between the parentheses. -/
def functionFrom (g : Grammar) (kind : FuncKind) (params : Parser (List Pattern)) : Parser Func := do
  let generics ← g.typeParameters?
  expect "("
  let params ← within (Context.inParams kind) params
  expect ")"
  let result ← if (← isTypeScript) && (← isPunct ":") then g.resultType ":" else pure []
  let body ← g.functionBody kind params
  return .mk params body (generics ++ result)

/-- A function from its `function` on, with its name if it has one. -/
def functionRule (g : Grammar) (isAsync needsName : Bool) : Parser (Option Ident × Func) := do
  expectWord "function"
  let isGenerator ← eat "*"
  let name ← if needsName || (← isAnyWord) then some <$> bindingIdent false else pure none
  let func ← g.functionFrom { isAsync, isGenerator } g.formalParams
  return (name, func)

/-- The parameters of a getter: none. -/
def getterParams (g : Grammar) (keyStart : Nat) : Parser (List Pattern) := do
  let params ← g.formalParams
  noteIf (params.any (!·.isThis)) .accessorParameters keyStart
  return params

/-- The parameters of a setter: exactly one, and no rest. -/
def setterParams (g : Grammar) (keyStart : Nat) : Parser (List Pattern) := do
  let params ← g.formalParams
  noteIf ((params.filter (!·.isThis)).length != 1) .accessorParameters keyStart
  if let some first := params.head? then noteIf first.isRest .accessorParameters first.start
  return params

end Grammar

end ComponentDoc.Script
