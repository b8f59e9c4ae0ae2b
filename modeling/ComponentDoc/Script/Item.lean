import ComponentDoc.Script.Visit

namespace ComponentDoc.Script

/-- A name in an import or export list, which may be spelled as a string. -/
inductive ModuleName where
  | ident (id : Ident)
  | string (lit : StringLit)
deriving DecidableEq, Repr, Inhabited

def ModuleName.text : ModuleName → String
  | .ident id => id.name
  | .string lit => lit.value.repaired

def ModuleName.span : ModuleName → Text.Span
  | .ident id => id.span
  | .string lit => lit.span

/-- What an import takes from the other module. -/
inductive Imported where
  | default
  | namespace
  /-- A member by name; without a name of its own it is called as the local name is. -/
  | member (name : Option ModuleName) (typeOnly : Bool)
deriving DecidableEq, Repr, Inhabited

structure ImportSpecifier where
  start : Nat
  imported : Imported
  binding : Ident
deriving DecidableEq, Repr, Inhabited

structure Import where
  typeOnly : Bool
  specifiers : List ImportSpecifier
  source : StringLit

inductive ExportSpecifier where
  | member (start : Nat) (source : ModuleName) (exported : Option ModuleName) (typeOnly : Bool)
  | namespace (start : Nat) (name : ModuleName)
deriving DecidableEq, Repr, Inhabited

structure ExportList where
  typeOnly : Bool
  specifiers : List ExportSpecifier
  source : Option StringLit

inductive ItemKind where
  | statement (statement : Stmt)
  | imports (entry : Import)
  | exportDecl (decl : Decl)
  | exportList (list : ExportList)
  /-- `export default` of an expression. -/
  | exportDefault (value : Expr)
  /-- Any other item: `export default` of a function or class, `export *`, a namespace or the like. -/
  | compound (parts : List Part)

structure Item where
  start : Nat
  kind : ItemKind

def Item.parts (item : Item) : List Part :=
  match item.kind with
  | .statement statement => [.stmt statement]
  | .imports _ => []
  | .exportDecl decl => [.stmt (.declaration decl)]
  | .exportList _ => []
  | .exportDefault value => [.expr value]
  | .compound parts => parts

def Item.visits (item : Item) : List Visit :=
  partsVisits item.parts none

end ComponentDoc.Script
