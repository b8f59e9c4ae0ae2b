import ComponentDoc.Script.Grammar.Operator

namespace ComponentDoc.Script

open Script.Parser

def Declarator.pattern : Declarator → Pattern
  | .mk _ pattern _ => pattern

def Declarator.init : Declarator → Option Expr
  | .mk _ _ init => init

namespace Grammar

/-- `in` or `of` after the head of a loop. -/
def isLoopWord : Parser Bool :=
  isOneOfWords ["in", "of"]

/-- One variable or pattern with its value. -/
def declarator (g : Grammar) (word : String) (inLoop : Bool) : Parser Declarator := do
  let start ← offset
  let pattern ← g.binding (word != "var")
  let ts ← isTypeScript
  if ts && pattern.isSimple then discard (eat "!")
  let isTyped := ts && (← isPunct ":")
  let pattern := pattern.withType (← g.typeAnnotation?)
  if inLoop && isTyped then noteIf (← isLoopWord) .badLoopHead start
  if !(inLoop && (← isLoopWord)) && (← isPunct "=") then
    advance
    let value ← g.assignment
    return .mk (← spanFrom start) pattern (some value)
  let declarator := .mk (← spanFrom start) pattern none
  if (← read).ambient || (inLoop && (← isLoopWord)) then return declarator
  if word == "const" && !inLoop then note .missingInitializer start
  else if !pattern.isSimple then fail .missingInitializer start
  return declarator

/-- Reads on to the end of a statement that has already failed. -/
def skipStatement (g : Grammar) : Parser Unit := do
  discard (trial? g.expression)
  let _ ← g.repeatWhile (return !(← isSemicolon)) advance
  discard eatSemicolon

/-- Variables, from the word that declares them on. -/
def variableDecl (g : Grammar) (start : Nat) (inLoop : Bool) : Parser Decl := do
  let word := (← identName).name
  let allowIn := word != "var" || !inLoop
  let one := within (fun c => { c with allowIn := allowIn || c.allowIn }) (g.declarator word inLoop)
  if ← isPunct ";" then
    note .emptyDeclaration (← lastStop)
    if !inLoop then discard eatSemicolon
    return .vars start (word == "const") []
  let first ← one
  let more ← g.repeatWhile (isPunct ",") do
    advance
    if ← isPunct ";" then fail .emptyDeclaration (← lastStart)
    one
  unless inLoop do
    unless ← eatSemicolon do
      note .semicolonExpected (← offset)
      g.skipStatement
  return .vars start (word == "const") (first :: more)

/-- `let` opens a declaration here. -/
def letDeclares : Parser Bool := do
  if !(← isWord "let") then return false
  let next ← peek
  match next.token with
  | .word name _ => return !isReserved name || ["yield", "await", "let"].contains name
  | .punct text => return text == "\x7b" || text == "["
  | _ => return false

/-- A declaration of variables opens here. -/
def startsVariables : Parser Bool := do
  if ← isOneOfWords ["var", "const"] then return true else letDeclares

/-- A function declaration, from its `async` or `function` on. -/
def functionDecl (g : Grammar) (start : Nat) : Parser Decl := do
  let isAsync ← eatWord "async"
  match ← g.functionRule isAsync true with
  | (some name, func) => return .function start name func
  | (none, func) => return .compound [.func func]

def startsAsyncFunction : Parser Bool := do
  if ← isWord "async" then nextIsWordOnLine "function" else return false

def classDecl (g : Grammar) : Parser Decl := do
  match ← g.classRule true with
  | (some name, parts) => return .classDecl name parts
  | (none, parts) => return .compound parts

/-- `= type` of an alias, after the word `type`. -/
def typeAlias (g : Grammar) : Parser Decl := do
  let name ← identName
  let generics ← g.typeParameters?
  expect "="
  let type ← within ({ · with allowConditionalType := true }) g.type
  expectSemicolon
  return .compound (.ident name :: (generics ++ type))

/-- An interface after the word `interface`. -/
def interfaceDecl (g : Grammar) : Parser Decl := do
  let name ← identName
  noteIf (typeWords.contains name.name) .restrictedName name.span.start
  let generics ← g.typeParameters?
  let bases ← if ← eatWord "extends" then g.heritage else pure []
  let members ← within ({ · with allowConditionalType := true }) g.typeMembers
  return .compound (.ident name :: (generics ++ bases ++ members))

/-- The name of an enum member. -/
def enumKey (g : Grammar) : Parser (List Part) := do
  let c ← cursor
  match c.token with
  | .string _ =>
    advance
    return []
  | .number | .bigint =>
    advance
    note .badEnumMember c.span.start
    return []
  | .punct "[" =>
    let key ← g.computedKey
    match key with
    | .string _ => return []
    | .template _ _ [] => return []
    | _ =>
      note .badEnumMember c.span.start
      return []
  | _ => return [.ident (← identName)]

def enumMember (g : Grammar) : Parser (List Part) := do
  let key ← g.enumKey
  if ← eat "=" then return key ++ [.expr (← g.assignmentWithIn)]
  unless (← isOneOf [",", "\x7d"]) do unexpected
  return key

/-- An enum after the word `enum`. -/
def enumDecl (g : Grammar) : Parser Decl := do
  let name ← identName
  expect "\x7b"
  let members ← g.commaList "\x7d" g.enumMember
  return .compound (.ident name :: members.flatten)

/-- The items of a namespace, braces included. -/
def namespaceBody (g : Grammar) : Parser (List Part) := do
  expect "\x7b"
  let items ← g.repeatWhile (return !(← isPunct "\x7d") && !(← isEof)) g.item
  expect "\x7d"
  return (items.map Item.parts).flatten

/-- A namespace after its first word. -/
def namespaceDecl (g : Grammar) : Parser Decl := do
  let name ← identName
  let more ← g.repeatWhile (isPunct ".") (do advance; identName)
  let body ← g.namespaceBody
  return .compound ((name :: more).map Part.ident ++ body)

/-- A module named by a string, which may have no body. -/
def externalModule (g : Grammar) : Parser Decl := do
  discard stringLit
  if ← isPunct "\x7b" then return .compound (← g.namespaceBody)
  expectSemicolon
  return .compound []

/-- The current token can name a declaration that follows a contextual word. -/
def namesDeclaration : Parser Bool := do
  return (← isName) && !(← afterBreak)

/-- A declaration opened by a contextual word that has been read; nothing if the word is a name after
all. If `isDeclared`, what follows must be the declaration. -/
def wordDecl? (g : Grammar) (word : String) (isDeclared : Bool) : Parser (Option Decl) := do
  match word with
  | "abstract" =>
    if isDeclared || ((← isWord "class") && !(← afterBreak)) then return some (← g.classDecl)
    return none
  | "enum" =>
    if isDeclared || (← isName) then return some (← g.enumDecl) else return none
  | "interface" =>
    if isDeclared || (← isName) then return some (← g.interfaceDecl) else return none
  | "module" =>
    if ← afterBreak then return none
    if let .string _ := (← token) then return some (← g.externalModule)
    if isDeclared || (← isName) then return some (← g.namespaceDecl) else return none
  | "namespace" =>
    if isDeclared || (← isName) then return some (← g.namespaceDecl) else return none
  | "type" =>
    if isDeclared || (← namesDeclaration) then return some (← g.typeAlias) else return none
  | _ => return none

/-- A declaration that a contextual word opens at the current token. -/
def openedDecl? (g : Grammar) : Parser (Option Decl) := do
  match (← token) with
  | .word word false =>
    if ["abstract", "enum", "interface", "module", "namespace", "type"].contains word then
      advance
      g.wordDecl? word true
    else return none
  | _ => return none

/-- What follows `declare`, a declaration of something that exists elsewhere. -/
def ambientDecl? (g : Grammar) (start : Nat) : Parser (Option Decl) :=
  within ({ · with ambient := true }) do
    if ← afterBreak then return none
    if (← isWord "function") || (← startsAsyncFunction) then return some (← g.functionDecl start)
    if ← isWord "class" then return some (← g.classDecl)
    if (← isWord "const") && (← nextIsWordOnLine "enum") then
      advance
      advance
      return some (← g.enumDecl)
    if ← isOneOfWords ["const", "var", "let"] then return some (← g.variableDecl start false)
    if ← isWord "global" then
      advance
      return some (.compound (← g.namespaceBody))
    g.openedDecl?

end Grammar

end ComponentDoc.Script
