import ComponentDoc.Script.Grammar.Basic

namespace ComponentDoc.Script

open Script.Parser

/-- Attaches the parts of a type. -/
def Pattern.withType (pattern : Pattern) (type : List Part) : Pattern :=
  match pattern with
  | .ident id old => .ident id (old ++ type)
  | .array start elements old => .array start elements (old ++ type)
  | .object start properties old => .object start properties (old ++ type)
  | .rest start inner old => .rest start inner (old ++ type)
  | other => other

def Pattern.isRest : Pattern → Bool
  | .rest _ _ _ => true
  | _ => false

namespace Grammar

/-- A type after a colon. -/
def typeAnnotation (g : Grammar) : Parser (List Part) := do
  expect ":"
  within ({ · with allowConditionalType := true }) g.type

/-- A type after a colon, if there is one; only typed scripts have them. -/
def typeAnnotation? (g : Grammar) : Parser (List Part) := do
  if (← isTypeScript) && (← isPunct ":") then g.typeAnnotation else return []

/-- `[expression]` as a key. -/
def computedKey (g : Grammar) : Parser Expr := do
  expect "["
  let first ← g.assignmentWithIn
  let key ← if (← isTypeScript) && (← isPunct ",") then
    note .badMemberName first.start
    let more ← g.repeatWhile (isPunct ",") (do advance; g.assignmentWithIn)
    pure (.compound first.start ((first :: more).map .expr))
  else pure first
  expect "]"
  return key

/-- The key of an object member or of a property pattern. -/
def propertyKey (g : Grammar) : Parser Key := do
  let c ← cursor
  match c.token with
  | .string value =>
    advance
    return .string ⟨value, c.span⟩
  | .number | .bigint =>
    advance
    return .number c.span.start
  | .word name _ => return .name (← wordIdent name)
  | .punct "[" => return .computed c.span.start (← g.computedKey)
  | _ => unexpected

/-- A pattern with an optional default. -/
def bindingElement (g : Grammar) : Parser Pattern := do
  let pattern ← g.binding false
  if ← eat "=" then
    let value ← g.assignmentWithIn
    noteIf (← read).ambient .badParameter pattern.start
    return .withDefault pattern value
  else return pattern

def arrayBinding (g : Grammar) : Parser Pattern := do
  let start ← offset
  expect "["
  let (elements, _) ← g.iterate (fun ((acc, rest) : List Pattern × Option Nat) => do
    if (← isPunct "]") || (← isEof) then return none
    if ← eat "," then return some (.hole :: acc, rest)
    if let some r := rest then note .restNotLast r
    let elementStart ← offset
    let isRest ← eat "..."
    let element ← if isRest then pure (.rest elementStart (← g.binding false) []) else g.bindingElement
    unless ← isPunct "]" do
      expect ","
      noteIf (isRest && (← isPunct "]")) .commaAfterRest (← lastStart)
    return some (element :: acc, if isRest then some elementStart else rest)) ([], none)
  expect "]"
  return .array start elements.reverse []

/-- One property of an object pattern. -/
def bindingProperty (g : Grammar) : Parser PatternProperty := do
  let start ← offset
  if ← eat "..." then return .rest start (← g.binding false)
  let key ← g.propertyKey
  if ← eat ":" then return .keyValue key (← g.bindingElement)
  match key with
  | .name id =>
    if ← eat "=" then return .shorthand id (some (← g.assignmentWithIn))
    noteIf (isReserved id.name) .reservedWord id.span.start
    return .shorthand id none
  | _ => unexpected

/-- Only the last property may be a rest, it binds a name, and no comma follows it. -/
def checkRestProperties (trailingComma : Option Nat) : List PatternProperty → Parser Unit
  | [] => return
  | [.rest start inner] => do
    match inner with
    | .ident _ _ => if let some comma := trailingComma then note .commaAfterRest comma
    | _ => fail .identifierExpected start
  | .rest start _ :: more => do
    note .restNotLast start
    checkRestProperties trailingComma more
  | _ :: more => checkRestProperties trailingComma more

/-- Members between braces, and the comma before the closing one if there is one. -/
def braceList {α : Type} (g : Grammar) (p : Parser α) : Parser (List α × Option Nat) := do
  expect "\x7b"
  let (list, comma) ← within ({ · with expectsColon := false }) <|
    g.iterate (fun ((acc, comma) : List α × Option Nat) => do
      if ← isPunct "\x7d" then return none
      let a ← p
      if ← isPunct "\x7d" then return some (a :: acc, comma)
      expect ","
      if ← isPunct "\x7d" then return some (a :: acc, some (← lastStart))
      return some (a :: acc, comma)) ([], none)
  expect "\x7d"
  return (list.reverse, comma)

def objectBinding (g : Grammar) : Parser Pattern := do
  let start ← offset
  let (properties, comma) ← g.braceList g.bindingProperty
  checkRestProperties comma properties
  return .object start properties []

/-- A name, or a pattern that takes a value apart. -/
def bindingRule (g : Grammar) (refuseLet : Bool) : Parser Pattern := do
  match (← token) with
  | .word _ _ => return .ident (← bindingIdent refuseLet) []
  | .punct "[" =>
    let pattern ← g.arrayBinding
    if (← read).ambient then discard (eat "?")
    return pattern
  | .punct "\x7b" =>
    let pattern ← g.objectBinding
    if (← read).ambient then discard (eat "?")
    return pattern
  | _ => unexpected

/-- Words that may stand before a constructor parameter. -/
def parameterModifiers : List String :=
  ["public", "protected", "private", "readonly"]

/-- The token after a modifier that belongs to what it modifies. -/
def followsModifier (next : Cursor) : Bool :=
  !next.afterBreak && match next.token with
    | .word _ _ | .string _ | .number | .bigint | .privateName _ => true
    | .punct text => ["[", "\x7b", "*", "...", "#"].contains text
    | _ => false

/-- Passes over one of the modifiers, if what follows belongs to it. -/
def modifier? (names : List String) : Parser (Option String) := do
  match (← token) with
  | .word name false =>
    if names.contains name && followsModifier (← peek) then
      advance
      return some name
    else return none
  | _ => return none

/-- Passes over the modifiers of a parameter. -/
def eatParameterModifier : Parser Bool := do
  if !(← isTypeScript) then return false
  let next ← peek
  let names := match next.token with
    | .word _ _ => true
    | .punct text => text == "\x7b" || text == "["
    | _ => false
  if names then return (← modifier? parameterModifiers).isSome else return false

/-- A parameter that is no rest. -/
def plainParam (g : Grammar) : Parser Pattern := do
  let start ← offset
  let modified ← eatParameterModifier
  let pattern ← g.binding false
  let ts ← isTypeScript
  let isOptional ← if ts then eat "?" else pure false
  let pattern := pattern.withType (← g.typeAnnotation?)
  let pattern ← if ← eat "=" then
    noteIf isOptional .badParameter pattern.start
    pure (.withDefault pattern (← g.assignment))
  else pure pattern
  noteIf modified .badModifier start
  return pattern

def restParam (g : Grammar) : Parser Pattern := do
  let start ← offset
  expect "..."
  let inner ← g.binding false
  let inner ← if ← eat "=" then
    let value ← g.assignment
    note .badParameter inner.start
    pure (.withDefault inner value)
  else pure inner
  let type ← g.typeAnnotation?
  if (← isTypeScript) && (← isPunct "?") then
    note .badParameter (← offset)
    advance
  return .rest start inner type

/-- Parameters up to the closing parenthesis, which is not taken; each is read by `plain` unless it is a
rest, which must be last. -/
def paramList (g : Grammar) (plain : Parser Pattern) : Parser (List Pattern) := do
  let (params, _) ← g.iterate (fun ((acc, rest) : List Pattern × Option Nat) => do
    if (← isPunct ")") || (← isEof) then return none
    if let some r := rest then note .restNotLast r
    let start ← offset
    let param ← if ← isPunct "..." then g.restParam else plain
    unless ← isPunct ")" do
      expect ","
      noteIf (param.isRest && (← isPunct ")")) .commaAfterRest (← lastStart)
    return some (param :: acc, if param.isRest then some start else rest)) ([], none)
  return params.reverse

def formalParams (g : Grammar) : Parser (List Pattern) :=
  g.paramList g.plainParam

end Grammar

end ComponentDoc.Script
