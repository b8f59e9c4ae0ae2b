import ComponentDoc.Script.Grammar.Parser
import ComponentDoc.Script.Item

/-!
The nonterminals that the rules of the grammar call again. A rule takes the grammar one level further
down, so that a grammar of any depth is built from the depth below it and reading always ends; a script
cannot nest deeper than it is long.
-/
namespace ComponentDoc.Script

structure Grammar where
  /-- How often a rule may repeat. -/
  depth : Nat
  assignment : Parser Expr
  /-- Operands joined by binary operators. -/
  binary : Parser Expr
  unary : Parser Expr
  /-- What may be called or assigned to, calls included. -/
  callable : Parser Expr
  /-- What `new` constructs, or a member expression. -/
  constructed : Parser Expr
  /-- A statement, which may be a declaration if the flag is set. -/
  statement : Bool → Parser Stmt
  /-- A pattern that binds; the flag refuses `let` as a name. -/
  binding : Bool → Parser Pattern
  type : Parser (List Part)
  typeOperator : Parser (List Part)
  item : Parser Item

namespace Grammar

open Script.Parser

/-- Repeats a step until it gives nothing. -/
def repeatStep {α : Type} (step : α → Parser (Option α)) : Nat → α → Parser α
  | 0, _ => do fail .nestingTooDeep (← offset)
  | n + 1, a => do
    match ← step a with
    | none => return a
    | some b => repeatStep step n b

def iterate {α : Type} (g : Grammar) (step : α → Parser (Option α)) (a : α) : Parser α :=
  repeatStep step g.depth a

/-- What a parser reads as long as a condition holds, in order. -/
def repeatWhile {α : Type} (g : Grammar) (condition : Parser Bool) (p : Parser α) : Parser (List α) := do
  let read ← g.iterate (fun (acc : List α) => do
    if ← condition then return some ((← p) :: acc) else return none) []
  return read.reverse

/-- A list up to a closing bracket, separated by commas; the last comma may be there or not. -/
def commaList {α : Type} (g : Grammar) (close : String) (p : Parser α) : Parser (List α) := do
  let list ← g.repeatWhile (return !(← isPunct close) && !(← isEof)) do
    let a ← p
    unless ← isPunct close do expect ","
    return a
  expect close
  return list

/-- An expression, which may be a sequence. -/
def expression (g : Grammar) : Parser Expr := do
  let first ← g.assignment
  if ← isPunct "," then
    let more ← g.repeatWhile (isPunct ",") (do advance; g.assignment)
    return .compound first.start ((first :: more).map .expr)
  else return first

/-- An expression in which `in` is an operator. -/
def expressionWithIn (g : Grammar) : Parser Expr :=
  within ({ · with allowIn := true }) g.expression

def assignmentWithIn (g : Grammar) : Parser Expr :=
  within ({ · with allowIn := true }) g.assignment

end Grammar

namespace Parser

def wordIdent (name : String) : Parser Ident := do
  let span := (← cursor).span
  advance
  return ⟨name, span⟩

/-- Any word as a name, such as a property is called by. -/
def identName : Parser Ident := do
  match (← token) with
  | .word name _ => wordIdent name
  | _ => fail .identifierExpected (← offset)

/-- A word as an identifier. `await` names something in code that is never run only. -/
def identifier (allowYield : Bool) : Parser Ident := do
  let start ← offset
  match (← token) with
  | .word name _ =>
    let context ← read
    if name == "await" then
      if context.ambient then wordIdent name else fail .reservedWord start
    else if name == "this" && context.typescript then wordIdent name
    else if name == "let" then
      note .reservedWord start
      wordIdent name
    else if name == "yield" then
      note .reservedWord start
      if allowYield then wordIdent name else fail .identifierExpected start
    else if isKeyword name then fail .identifierExpected start
    else
      noteIf (strictWords.contains name) .reservedWord start
      noteIf (name == "arguments" && context.inClassField) .restrictedName start
      wordIdent name
  | _ => fail .identifierExpected start

/-- An identifier that is bound. -/
def bindingIdent (refuseLet : Bool) : Parser Ident := do
  if refuseLet && (← isWord "let") then unexpected
  let id ← identifier true
  noteIf (isRestricted id.name) .restrictedName id.span.start
  return id

def moduleName : Parser ModuleName := do
  let c ← cursor
  match c.token with
  | .string value =>
    advance
    return .string ⟨value, c.span⟩
  | .word _ _ => return .ident (← identName)
  | _ => unexpected

def stringLit : Parser StringLit := do
  let c ← cursor
  match c.token with
  | .string value =>
    advance
    return ⟨value, c.span⟩
  | _ => unexpected

end Parser

end ComponentDoc.Script
