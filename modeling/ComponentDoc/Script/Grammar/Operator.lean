import ComponentDoc.Script.Grammar.Chain

namespace ComponentDoc.Script

open Script.Parser

namespace Grammar

/-- A type in angle brackets before the value that it is for. -/
def castExpr (g : Grammar) : Parser Expr := do
  let start ← offset
  expect "<"
  if ← eatWord "const" then
    expectFirst '>'
    return .assertion start .asConst (← g.unary) []
  let type ← within ({ · with allowConditionalType := true }) g.type
  expectFirst '>'
  return .assertion start .cast (← g.unary) type

def awaitExpr (g : Grammar) : Parser Expr := do
  let c ← cursor
  let start := c.span.start
  advance
  if ← isPunct "*" then fail .awaitNotAllowed (← offset)
  let context ← read
  if !context.inAsync && (← isOneOf [")", "]"]) then
    note .awaitNotAllowed start
    return .ident ⟨"await", c.span⟩
  noteIf (context.inFunction && !context.inAsync) .awaitNotAllowed start
  noteIf (context.inParameters && !context.inFunction) .awaitNotAllowed start
  return .unary start "await" (← g.unary)

/-- What `delete` removes in a typed script: a member. -/
def isDeletable : Expr → Bool
  | .paren _ inner => isDeletable inner
  | .member _ _ => true
  | .index _ _ => true
  | .optional (.member _ _) => true
  | .optional (.index _ _) => true
  | _ => false

def prefixOperators : List String :=
  ["+", "-", "~", "!", "delete", "void", "typeof"]

/-- An operator before its operand. -/
def prefixExpr (g : Grammar) (op : String) : Parser Expr := do
  let start ← offset
  advance
  if op == "++" || op == "--" then
    let operand ← g.unary
    checkTarget operand false
    return .unary start op operand
  let operand ← recovering g.unary .hole
  if op == "delete" then
    match operand with
    | .ident id => note .deleteOfName id.span.start
    | _ => noteIf ((← isTypeScript) && !isDeletable operand) .invalidTarget operand.start
  return .unary start op operand

/-- What may be called, followed by `++` or `--` on the same line. -/
def postfixExpr (g : Grammar) : Parser Expr := do
  let operand ← callableRule g
  if let .arrow _ _ := operand then return operand
  if ← afterBreak then return operand
  match (← token) with
  | .punct op =>
    if op == "++" || op == "--" then
      checkTarget operand false
      advance
      return .unary operand.start op operand
    else return operand
  | _ => return operand

def unaryRule (g : Grammar) : Parser Expr := do
  match (← token) with
  | .punct op =>
    if prefixOperators.contains op || op == "++" || op == "--" then g.prefixExpr op
    else if op == "<" && (← isTypeScript) then g.castExpr
    else g.postfixExpr
  | .word name false =>
    if name == "await" then g.awaitExpr
    else if prefixOperators.contains name then g.prefixExpr name
    else g.postfixExpr
  | _ => g.postfixExpr

/-- A unary operator that leaves open what a power after it applies to. -/
def isPlainUnary : Expr → Bool
  | .unary _ op _ => op != "++" && op != "--"
  | _ => false

def isLogical : Expr → Bool
  | .binary op _ _ => op == "&&" || op == "||"
  | _ => false

def isCoalescing : Expr → Bool
  | .binary op _ _ => op == "??"
  | _ => false

/-- `as` or `satisfies` after an operand, on the same line. -/
def assertionAfter? (g : Grammar) (limit : Nat) (left : Expr) : Parser (Option Expr) := do
  if !(← isTypeScript) || (← afterBreak) || !Nat.blt limit 7 then return none
  if ← isWord "as" then
    advance
    if ← eatWord "const" then return some (.assertion left.start .asConst left [])
    return some (.assertion left.start .asType left (← g.type))
  if ← isWord "satisfies" then
    advance
    return some (.assertion left.start .satisfies left (← g.type))
  return none

/-- The operator that comes next, if it binds tighter than the limit. -/
def operator? (limit : Nat) : Parser (Option (String × Nat)) := do
  match (← token).binaryOp? with
  | none => return none
  | some op =>
    if op == "in" && !(← read).allowIn then return none
    match precedence? op with
    | some p => return if Nat.blt limit p then some (op, p) else none
    | none => return none

/-- Goes on after a left operand with all operators that bind tighter than the limit. -/
def operations (g : Grammar) : Nat → Nat → Expr → Parser Expr
  | 0, _, _ => do fail .nestingTooDeep (← offset)
  | n + 1, limit, left => do
    if let some asserted ← g.assertionAfter? limit left then return ← operations g n limit asserted
    match ← operator? limit with
    | none => return left
    | some (op, p) =>
      advance
      if op == "**" && isPlainUnary left then fail .unaryBeforePower (← offset)
      let first ← g.unary
      let right ← operations g n (if op == "**" then p - 1 else p) first
      noteIf (op == "??" && isLogical left) .coalesceWithLogical left.start
      noteIf (op == "??" && isLogical right) .coalesceWithLogical right.start
      noteIf ((op == "&&" || op == "||") && isCoalescing left) .coalesceWithLogical left.start
      operations g n limit (.binary op left right)

def binaryRule (g : Grammar) : Parser Expr := do
  let left ← g.unary
  if let .arrow _ _ := left then return left
  operations g g.depth 0 left

def yieldExpr (g : Grammar) : Parser Expr := do
  let start ← offset
  advance
  let context ← read
  if context.inParameters && !context.inFunction then fail .yieldNotAllowed start
  let isBare := !(← isPunct "*") && !(← token).startsExpr
  if isBare || (← isSemicolon) then return .compound start []
  discard (eat "*")
  return .compound start [.expr (← g.assignment)]

/-- An operation whose result cannot be assigned to. -/
def isOperation : Expr → Bool
  | .conditional _ _ _ => true
  | .binary _ _ _ => true
  | .unary _ op _ => op != "await"
  | .arrow _ _ => true
  | _ => false

/-- An assignment expression without type parameters before it. -/
def plainAssignment (g : Grammar) : Parser Expr := do
  if (← read).inGenerator && (← isWord "yield") then return ← g.yieldExpr
  let start ← offset
  let mayBeArrow := (← isName) || (← isPunct "(")
  modify ({ · with arrowStart := if mayBeArrow then some start else none })
  let value ← g.binary
  let value ← match value with
    | .arrow _ _ => pure value
    | _ => if ← isPunct "?" then g.conditionalRest value else pure value
  if isOperation value then return value
  g.finishAssignment value

/-- An arrow function with type parameters. -/
def genericArrow (g : Grammar) : Parser Expr := do
  let start ← offset
  let generics ← g.typeParameters
  match ← g.plainAssignment with
  | .arrow _ (.mk params body types) => return .arrow start (.mk params body (generics ++ types))
  | _ => unexpected

def assignmentRule (g : Grammar) : Parser Expr := do
  if (← isTypeScript) && (← isPunct "<") then
    let next ← peek
    if let .word _ _ := next.token then
      let arrow ← trial? (within ({ · with expectsColon := false }) g.genericArrow)
      if let some arrow := arrow then return arrow
  g.plainAssignment

end Grammar

end ComponentDoc.Script
