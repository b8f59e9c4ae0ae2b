import ComponentDoc.Script.Grammar.Declaration

namespace ComponentDoc.Script

open Script.Parser

namespace Grammar

/-- The body of a statement, which is no declaration. -/
def nested (g : Grammar) : Parser Stmt :=
  g.statement false

/-- The body of a loop. -/
def loopBody (g : Grammar) : Parser Stmt :=
  within ({ · with breakAllowed := true, continueAllowed := true }) g.nested

/-- An expression in parentheses. -/
def condition (g : Grammar) : Parser Expr := do
  expect "("
  let value ← g.expressionWithIn
  expect ")"
  return value

/-- `break` or `continue`. -/
def jump (isBreak : Bool) : Parser Stmt := do
  let start ← offset
  advance
  let label ← if ← eatSemicolon then pure none else
    let label ← identifier true
    expectSemicolon
    pure (some label)
  let labels := (← get).labels
  let isUnknown := label.any fun id => !labels.contains id.name
  let context ← read
  if isBreak then
    if isUnknown then note .unknownLabel start
    else noteIf (label.isNone && !context.breakAllowed) .breakOutsideLoop start
  else if !context.continueAllowed then note .continueOutsideLoop start
  else noteIf isUnknown .unknownLabel start
  return .compound ((label.map Part.ident).toList)

def ifStatement (g : Grammar) : Parser Stmt := do
  advance
  let test ← g.condition
  let yes ← g.nested
  let no ← if ← eatWord "else" then pure [Part.stmt (← g.nested)] else pure []
  return .compound (.expr test :: .stmt yes :: no)

def whileStatement (g : Grammar) : Parser Stmt := do
  advance
  let test ← g.condition
  return .compound [.expr test, .stmt (← g.loopBody)]

def doStatement (g : Grammar) : Parser Stmt := do
  advance
  let body ← g.loopBody
  expectWord "while"
  let test ← g.condition
  discard eatSemicolon
  return .compound [.expr test, .stmt body]

def returnStatement (g : Grammar) : Parser Stmt := do
  let start ← offset
  advance
  let value ← if ← isSemicolon then pure none else some <$> g.expressionWithIn
  expectSemicolon
  noteIf (!(← read).inFunction) .returnOutsideFunction start
  return .return value

def throwStatement (g : Grammar) : Parser Stmt := do
  advance
  if ← afterBreak then fail .lineBreakAfterThrow (← offset)
  let value ← g.expressionWithIn
  expectSemicolon
  return .compound [.expr value]

def withStatementRule (g : Grammar) : Parser Stmt := do
  note .withStatement (← offset)
  advance
  let value ← g.condition
  return .compound [.expr value, .stmt (← g.nested)]

/-- The part of a loop head after `in` or `of`, which names what is gone through. -/
def eachHead (g : Grammar) : Parser Expr := do
  if ← eatWord "of" then g.assignmentWithIn
  else
    expectWord "in"
    g.expressionWithIn

/-- The test and the step of a loop, after the first semicolon. -/
def countedHead (g : Grammar) : Parser (List Part) := do
  let test ← if ← isPunct ";" then pure [] else pure [.expr (← g.expressionWithIn)]
  expect ";"
  let step ← if ← isPunct ")" then pure [] else pure [.expr (← g.expressionWithIn)]
  return test ++ step

/-- The variable that a loop assigns to is declared on its own and without a value. -/
def checkLoopVariables (declarators : List Declarator) : Parser Unit := do
  match declarators with
  | [d] => noteIf d.init.isSome .initializerInLoopHead d.pattern.start
  | _ => note .badLoopHead (← offset)

/-- The head of a loop, and whether it goes through the values of something. -/
def loopHead (g : Grammar) : Parser (List Part × Bool) := do
  let start ← offset
  if ← startsVariables then
    let decl ← within ({ · with allowIn := false }) (g.variableDecl start true)
    let declared : Part := .stmt (.declaration decl)
    if ← isLoopWord then
      if let .vars _ _ declarators := decl then checkLoopVariables declarators
      let isOf ← isWord "of"
      return ([declared, .expr (← g.eachHead)], isOf)
    expect ";"
    return (declared :: (← g.countedHead), false)
  if ← eat ";" then return (← g.countedHead, false)
  let value ← within ({ · with allowIn := false }) g.expression
  if ← isLoopWord then
    let isOf ← isWord "of"
    let pattern ← toPattern .assignment value
    match pattern with
    | .object _ _ _ | .array _ _ _ => noteIf (!isOf && (← isTypeScript)) .badLoopHead start
    | _ => pure ()
    return ([.pattern pattern, .expr (← g.eachHead)], isOf)
  expect ";"
  return (.expr value :: (← g.countedHead), false)

def forStatement (g : Grammar) : Parser Stmt := do
  advance
  let awaitStart ← offset
  let isAwait ← eatWord "await"
  noteIf (isAwait && (← read).inFunction && !(← read).inAsync) .awaitNotAllowed awaitStart
  expect "("
  let (head, isOf) ← within ({ · with inAwaitHead := isAwait }) g.loopHead
  expect ")"
  let body ← g.loopBody
  if isAwait && !isOf then fail .awaitNotAllowed awaitStart
  return .compound (head ++ [.stmt body])

/-- One case of a switch with its statements; the flag tells that it is the default. -/
def switchCase (g : Grammar) : Parser (List Part × Bool) := do
  let isDefault ← isWord "default"
  advance
  let test ← if isDefault then pure [] else pure [Part.expr (← g.expressionWithIn)]
  expect ":"
  let statements ← g.repeatWhile (do
    if ← isOneOfWords ["case", "default"] then return false
    return !(← isPunct "\x7d") && !(← isEof)) (g.statement true)
  return (test ++ statements.map .stmt, isDefault)

def switchStatement (g : Grammar) : Parser Stmt := do
  advance
  let subject ← g.condition
  expect "\x7b"
  let (cases, _) ← within ({ · with breakAllowed := true }) <|
    g.iterate (fun ((acc, hasDefault) : List (List Part) × Bool) => do
      if !(← isOneOfWords ["case", "default"]) then return none
      let start ← offset
      let (parts, isDefault) ← g.switchCase
      if isDefault && hasDefault then fail .repeatedDefaultCase start
      return some (parts :: acc, hasDefault || isDefault)) ([], false)
  expect "\x7d"
  return .compound (.expr subject :: cases.reverse.flatten)

/-- What a handler catches. -/
def caught (g : Grammar) : Parser (List Part) := do
  if ← eat "(" then
    let pattern ← g.binding false
    let pattern := pattern.withType (← g.typeAnnotation?)
    expect ")"
    return [.pattern pattern]
  else return []

def tryStatement (g : Grammar) : Parser Stmt := do
  advance
  let tried ← g.block
  let catches ← isWord "catch"
  let handler ← if ← eatWord "catch" then
    let param ← g.caught
    pure (param ++ (← g.block).map Part.stmt)
  else pure []
  let finalizes ← isWord "finally"
  let finalizer ← if ← eatWord "finally" then g.block else pure []
  noteIf (!catches && !finalizes) .tryWithoutHandler (← offset)
  return .compound (tried.map Part.stmt ++ handler ++ finalizer.map Part.stmt)

def labelled (g : Grammar) (label : Ident) : Parser Stmt := do
  let labels := (← get).labels
  noteIf (labels.contains label.name) .duplicateLabel label.span.start
  let body ← withLabels (label.name :: labels) <| within ({ · with breakAllowed := true }) do
    let start ← offset
    if ← isWord "function" then
      let decl ← g.functionDecl start
      note .labelledFunction start
      return .declaration decl
    g.nested
  return .labeled label body

/-- A statement that starts with an expression: a contextual word may turn it into a declaration, and a
colon into a label. -/
def expressionStatement (g : Grammar) : Parser Stmt := do
  let start ← offset
  let value ← g.expressionWithIn
  if let .ident id := value then
    if ← eat ":" then return ← g.labelled id
    if ← isTypeScript then
      let decl ← match id.name with
        | "declare" => g.ambientDecl? start
        | "global" =>
          if ← isPunct "\x7b" then pure (some (.compound (.ident id :: (← g.namespaceBody)))) else pure none
        | word => g.wordDecl? word false
      if let some decl := decl then return .declaration decl
  unless ← eatSemicolon do fail .semicolonExpected (← offset)
  return .expr start value

/-- A declaration that is opened by a word which names nothing else. -/
def typedDecl? (g : Grammar) : Parser (Option Decl) := do
  if !(← isTypeScript) then return none
  let next ← peek
  let isNamed := match next.token with
    | .word name _ => !isReserved name
    | _ => false
  if (← isWord "const") && next.token == .word "enum" false then
    advance
    advance
    return some (← g.enumDecl)
  if (← isWord "enum") || ((← isWord "interface") && isNamed && !next.afterBreak) then
    g.openedDecl?
  else return none

def wordStatement (g : Grammar) (word : String) (mayDeclare : Bool) : Parser Stmt := do
  let start ← offset
  match word with
  | "break" => jump true
  | "continue" => jump false
  | "debugger" =>
    advance
    expectSemicolon
    return .empty
  | "do" => g.doStatement
  | "for" => g.forStatement
  | "function" =>
    noteIf (!mayDeclare) .declarationNotAllowed start
    return .declaration (← g.functionDecl start)
  | "class" =>
    noteIf (!mayDeclare) .declarationNotAllowed start
    return .declaration (← g.classDecl)
  | "if" => g.ifStatement
  | "return" => g.returnStatement
  | "switch" => g.switchStatement
  | "throw" => g.throwStatement
  | "try" => g.tryStatement
  | "with" => g.withStatementRule
  | "while" => g.whileStatement
  | "var" => return .declaration (← g.variableDecl start false)
  | "import" =>
    let next ← peek
    if next.token == .punct "(" || next.token == .punct "." then g.expressionStatement
    else fail .importOrExportNotAllowed start
  | "export" => fail .importOrExportNotAllowed start
  | _ =>
    if mayDeclare && (← startsVariables) then return .declaration (← g.variableDecl start false)
    if ← startsAsyncFunction then
      noteIf (!mayDeclare) .declarationNotAllowed start
      return .declaration (← g.functionDecl start)
    g.expressionStatement

def statementRule (g : Grammar) (mayDeclare : Bool) : Parser Stmt := do
  if let some decl ← g.typedDecl? then return .declaration decl
  match (← token) with
  | .word word false => g.wordStatement word mayDeclare
  | .punct "\x7b" => return .compound ((← g.block).map Part.stmt)
  | .punct ";" =>
    advance
    return .empty
  | _ => g.expressionStatement

end Grammar

end ComponentDoc.Script
