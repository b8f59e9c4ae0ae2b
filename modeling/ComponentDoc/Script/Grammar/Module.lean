import ComponentDoc.Script.Grammar.Statement

/-!
The items of a module: imports, exports and statements. Two forms are not part of the grammar, so that a script that
has one is not valid: an import of a phase, by `import defer` or `import source`, and a declaration by `using`.
-/
namespace ComponentDoc.Script

open Script.Parser

namespace Grammar

/-- `from` and the module that something comes from. -/
def fromClause : Parser StringLit := do
  expectWord "from"
  stringLit

/-- Import attributes on the same line. -/
def importAttributes (g : Grammar) : Parser Unit := do
  if !(← afterBreak) && (← isOneOfWords ["with", "assert"]) then
    advance
    discard g.objectLiteral

/-- A name in a list, and what it is called on the other side. -/
structure ListedName where
  typeOnly : Bool
  name : ModuleName
  renamed : Option ModuleName

/-- A list entry that starts with the word `type` followed by a word, which is a name, a modifier, or
both: `type as`, `type as as`, `type as x` and `type as as x` are told apart by what follows. -/
def typedName (word : Ident) : Parser ListedName := do
  let second ← identName
  if second.name != "as" then
    let name := ModuleName.ident second
    if ← eatWord "as" then return ⟨true, name, some (← moduleName)⟩ else return ⟨true, name, none⟩
  if !(← isAnyWord) then return ⟨true, .ident second, none⟩
  let third ← identName
  if third.name == "as" && (← isAnyWord) then return ⟨true, .ident second, some (.ident (← identName))⟩
  return ⟨false, .ident word, some (.ident third)⟩

/-- One entry of a list of imports or exports. -/
def listedName : Parser ListedName := do
  let name ← moduleName
  match name with
  | .ident word =>
    if (← isTypeScript) && word.name == "type" && (← isAnyWord) && !(← isWord "as") then
      return ← typedName word
    if (← isTypeScript) && word.name == "type" && (← isWord "as") then return ← typedName word
  | .string _ => pure ()
  if ← eatWord "as" then return ⟨false, name, some (← moduleName)⟩ else return ⟨false, name, none⟩

/-- A name that an import binds. -/
def importedIdent (name : ModuleName) : Parser Ident := do
  match name with
  | .string lit => fail .identifierExpected lit.span.start
  | .ident id =>
    if isReserved id.name then fail .reservedWord id.span.start
    noteIf (isRestricted id.name) .restrictedName id.span.start
    return id

def importSpecifier : Parser ImportSpecifier := do
  let start ← offset
  let listed ← listedName
  match listed.renamed with
  | some name =>
    return ⟨start, .member (some listed.name) listed.typeOnly, ← importedIdent name⟩
  | none => return ⟨start, .member none listed.typeOnly, ← importedIdent listed.name⟩

/-- What an import takes besides a default: everything under one name, or a list. -/
def importBindings (g : Grammar) : Parser (List ImportSpecifier) := do
  let start ← offset
  if ← eat "*" then
    expectWord "as"
    return [⟨start, .namespace, ← bindingIdent false⟩]
  if ← eat "\x7b" then return ← g.commaList "\x7d" importSpecifier
  return []

/-- `import name = …`, after the name. -/
def importAlias (g : Grammar) (name : Ident) : Parser ItemKind := do
  expect "="
  let next ← peek
  if (← isWord "require") && next.token == .punct "(" then
    advance
    expect "("
    discard stringLit
    expect ")"
    expectSemicolon
    return .compound [.ident name]
  let entity ← g.entityName
  expectSemicolon
  return .compound (.ident name :: entity)

/-- The word `type` after `import` is a modifier and not a name. -/
def isTypeModifier : Parser Bool := do
  if !(← isTypeScript) || !(← isWord "type") then return false
  let next ← peek
  match next.token with
  | .punct text => return text == "*" || text == "\x7b"
  | .word "from" false =>
    return next.next.token == .word "from" false || next.next.token == .punct "="
  | .word name _ => return !isReserved name
  | _ => return false

/-- An import statement after its `import`. -/
def importRule (g : Grammar) : Parser ItemKind := do
  if let .string _ := (← token) then
    let source ← stringLit
    g.importAttributes
    discard eatSemicolon
    return .imports ⟨false, [], source⟩
  let typeOnly ← isTypeModifier
  if typeOnly then advance
  let default ← if ← isName then some <$> bindingIdent false else pure none
  if let some name := default then
    if (← isTypeScript) && (← isPunct "=") then return ← g.importAlias name
  let binds ← if default.isNone then pure true else
    if ← isWord "from" then pure false else
      expect ","
      pure true
  let bindings ← if binds then g.importBindings else pure []
  let source ← fromClause
  g.importAttributes
  expectSemicolon
  let first := default.map fun id => (⟨id.span.start, .default, id⟩ : ImportSpecifier)
  return .imports ⟨typeOnly, first.toList ++ bindings, source⟩

def exportSpecifier : Parser ExportSpecifier := do
  let start ← offset
  let listed ← listedName
  return .member start listed.name listed.renamed listed.typeOnly

/-- Names exported from the module itself are names of variables. -/
def checkLocal (specifier : ExportSpecifier) : Parser Unit := do
  match specifier with
  | .member _ (.ident id) _ _ => noteIf (isReserved id.name) .fromExpected id.span.start
  | .member _ (.string lit) _ _ => note .fromExpected lit.span.start
  | .namespace _ _ => return

/-- An export list from its opening brace on. -/
def exportList (g : Grammar) (typeOnly : Bool) : Parser ItemKind := do
  expect "\x7b"
  let specifiers ← g.commaList "\x7d" exportSpecifier
  if ← isWord "from" then
    let source ← fromClause
    g.importAttributes
    expectSemicolon
    return .exportList ⟨typeOnly, specifiers, some source⟩
  specifiers.forM checkLocal
  discard eatSemicolon
  return .exportList ⟨typeOnly, specifiers, none⟩

/-- An export of everything, from its star on; `start` is where the specifier counts from. -/
def exportAll (g : Grammar) (start : Nat) (typeOnly : Bool) : Parser ItemKind := do
  expect "*"
  let name ← if ← eatWord "as" then some <$> moduleName else pure none
  let source ← fromClause
  g.importAttributes
  expectSemicolon
  match name with
  | some name => return .exportList ⟨typeOnly, [.namespace start name], some source⟩
  | none => return .compound []

/-- What follows `export default`. -/
def exportDefault (g : Grammar) : Parser ItemKind := do
  if ← isTypeScript then
    if (← isWord "abstract") && (← nextIsWordOnLine "class") then advance
    if ← isWord "interface" then
      advance
      return .compound [.stmt (.declaration (← g.interfaceDecl))]
  if (← isWord "function") || (← startsAsyncFunction) then
    let isAsync ← eatWord "async"
    let (name, func) ← g.functionRule isAsync false
    return .compound ((name.map Part.ident).toList ++ [.func func])
  if ← isWord "class" then
    let (name, parts) ← g.classRule false
    return .compound ((name.map Part.ident).toList ++ parts)
  let value ← g.assignmentWithIn
  expectSemicolon
  return .exportDefault value

/-- The forms of export that only typed scripts have. -/
def typedExport? (g : Grammar) : Parser (Option ItemKind) := do
  if !(← isTypeScript) then return none
  let start ← offset
  if ← isWord "declare" then
    let decl ← trial? do
      advance
      match ← g.ambientDecl? start with
      | some decl => return decl
      | none => unexpected
    if let some decl := decl then return some (.exportDecl decl)
  let decl ← trial? do
    match ← g.openedDecl? with
    | some decl => return decl
    | none => unexpected
  if let some decl := decl then return some (.exportDecl decl)
  if (← isWord "const") && (← nextIsWordOnLine "enum") then
    advance
    advance
    return some (.exportDecl (← g.enumDecl))
  if ← eatWord "import" then
    if ← isTypeModifier then advance
    return some (← g.importAlias (← identName))
  if ← eat "=" then
    let value ← g.expressionWithIn
    expectSemicolon
    return some (.compound [.expr value])
  if ← eatWord "as" then
    expectWord "namespace"
    let name ← identifier false
    expectSemicolon
    return some (.compound [.ident name])
  return none

/-- An export statement after its `export`. -/
def exportRule (g : Grammar) : Parser ItemKind := do
  if let some kind ← g.typedExport? then return kind
  let start ← offset
  let typeOnly ← if ← isTypeScript then eatWord "type" else pure false
  if !typeOnly then
    if ← eatWord "default" then return ← g.exportDefault
    if ← isWord "class" then return .exportDecl (← g.classDecl)
    if (← isWord "function") || (← startsAsyncFunction) then return .exportDecl (← g.functionDecl start)
    if ← startsVariables then return .exportDecl (← g.variableDecl start false)
  if ← isPunct "*" then g.exportAll start typeOnly else g.exportList typeOnly

/-- An item of a module. -/
def itemRule (g : Grammar) : Parser Item := do
  let start ← offset
  let next ← peek
  if (← isWord "import") && next.token != .punct "(" && next.token != .punct "." then
    advance
    return ⟨start, ← g.importRule⟩
  if ← isWord "export" then
    advance
    return ⟨start, ← g.exportRule⟩
  return ⟨start, .statement (← g.statement true)⟩

/-- The grammar of a given depth. -/
def ofDepth : Nat → Grammar
  | 0 =>
    { depth := 0
      assignment := tooDeep, binary := tooDeep, unary := tooDeep, callable := tooDeep
      constructed := tooDeep, statement := fun _ => tooDeep, binding := fun _ => tooDeep
      type := tooDeep, typeOperator := tooDeep, item := tooDeep }
  | n + 1 =>
    { depth := n + 1
      assignment := fun c s => (ofDepth n).assignmentRule c s
      binary := fun c s => (ofDepth n).binaryRule c s
      unary := fun c s => (ofDepth n).unaryRule c s
      callable := fun c s => (ofDepth n).callableRule c s
      constructed := fun c s => (Prod.fst <$> (ofDepth n).memberOrNew true : Parser Expr) c s
      statement := fun mayDeclare c s => (ofDepth n).statementRule mayDeclare c s
      binding := fun refuseLet c s => (ofDepth n).bindingRule refuseLet c s
      type := fun c s => (ofDepth n).typeRule c s
      typeOperator := fun c s => (ofDepth n).typeOperatorRule c s
      item := fun c s => (ofDepth n).itemRule c s }
where
  tooDeep {α : Type} : Parser α := do fail .nestingTooDeep (← offset)

/-- The items up to the end of the text. -/
def items (g : Grammar) : Parser (List Item) :=
  g.repeatWhile (return !(← isEof)) g.item

end Grammar

end ComponentDoc.Script
