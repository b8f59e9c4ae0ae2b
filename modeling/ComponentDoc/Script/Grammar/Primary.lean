import ComponentDoc.Script.Binding
import ComponentDoc.Script.Grammar.Class
import ComponentDoc.Script.Grammar.Target

/-!
Expressions that stand alone: literals, names, functions, classes, and what is in parentheses, which is
either an expression or the parameters of an arrow function.
-/
namespace ComponentDoc.Script

open Script.Parser Text

/-- One entry between parentheses: a value, or a parameter where it shows at once that it is one. -/
inductive ParenItem where
  | value (e : Expr)
  | param (p : Pattern)

def ParenItem.isParam : ParenItem → Bool
  | .param _ => true
  | .value _ => false

def ParenItem.start : ParenItem → Nat
  | .value e => e.start
  | .param p => p.start

namespace Grammar

/-- An assignment expression, or one after `...`. -/
def argument (g : Grammar) : Parser Expr := do
  let start ← offset
  if ← eat "..." then return .spread start (← g.assignmentWithIn) else g.assignmentWithIn

/-- The arguments of a call, parentheses included. -/
def arguments (g : Grammar) : Parser (List Expr) := do
  expect "("
  within ({ · with expectsColon := false }) (g.commaList ")" g.argument)

def arrayLiteral (g : Grammar) : Parser Expr := do
  let start ← offset
  expect "["
  let elements ← within ({ · with expectsColon := false }) <|
    g.repeatWhile (return !(← isPunct "]") && !(← isEof)) do
      if ← eat "," then return .hole
      let element ← g.argument
      unless ← isPunct "]" do
        expect ","
        if ← isPunct "]" then
          let comma ← lastStart
          modify fun s => { s with trailingCommas := (start, comma) :: s.trailingCommas }
      return element
  expect "]"
  return .array start elements

/-- A template from its opening quote on: the first stretch and the substitutions. -/
def templateParts (g : Grammar) : Parser (TemplateScan × List Expr × Bool) := do
  let head ← templateStretch (·.after) (·.span.stop)
  let (values, malformed) ← within ({ · with expectsColon := false })
    (g.substitutions g.expressionWithIn head)
  return (head, values, malformed)

/-- A template without a tag, in which every escape must spell something. -/
def templateLiteral (g : Grammar) : Parser Expr := do
  let start ← offset
  let (head, values, malformed) ← g.templateParts
  if malformed then fail .badEscape start
  return .template start (.ofCodes head.codes) values

def regexLiteral : Parser Expr := do
  let c ← cursor
  match scanRegexBody? false (c.here.drop 1) (c.span.start + 1) with
  | none => fail .unterminatedRegex c.span.start
  | some (rest, stop) =>
    let flags := rest.takeWhile isIdentPart
    noteIf (!regexFlagsFit flags) .badRegexFlags stop
    moveTo (·.resume (rest.drop flags.length) (stop + byteLength flags))
    return .literal .regex c.span.start

/-- A conditional expression after its test. -/
def conditionalRest (g : Grammar) (test : Expr) : Parser Expr := do
  expect "?"
  let yes ← within ({ · with inConditional := true, expectsColon := true, allowIn := true }) g.assignment
  expect ":"
  let no ← within ({ · with inConditional := true, expectsColon := false }) g.assignment
  return .conditional test yes no

/-- The expression that an entry between parentheses starts with. In a typed script a name may be a
parameter followed by `?`, so that a conditional is left for later. -/
def parenValue (g : Grammar) : Parser Expr := do
  let start ← offset
  if !(← isTypeScript) then return ← g.argument
  if ← isName then return ← g.finishAssignment (← g.binary)
  if ← isPunct "..." then
    let next ← peek
    let isNamed := match next.token with
      | .word name _ => !isReserved name
      | _ => false
    if isNamed then
      advance
      return .spread start (← g.binary)
  g.argument

/-- A parameter from its optional mark on. -/
def parenParam (g : Grammar) (value : Expr) : Parser Pattern := do
  let pattern ← match value with
    | .spread start inner => do pure (.rest start (← toPattern .binding inner) [])
    | value => toPattern .binding value
  let pattern := pattern.withType (← g.typeAnnotation?)
  if ← eat "=" then return .withDefault pattern (← g.assignment) else return pattern

def parenItem (g : Grammar) : Parser ParenItem := do
  let start ← offset
  modify ({ · with arrowStart := some start })
  let modified ← eatParameterModifier
  noteIf modified .badModifier start
  let value ← g.parenValue
  if !(← isTypeScript) then return .value value
  if ← isPunct "?" then
    let next ← peek
    if [",", "=", ":", ")"].any (next.token == .punct ·) then
      advance
      match value with
      | .ident _ => pure ()
      | .spread spreadStart (.ident _) => note .badParameter spreadStart
      | _ => fail .badParameter value.start
      return .param (← g.parenParam value)
    match value with
    | .spread _ _ => return .value value
    | _ =>
      let value ← g.conditionalRest value
      if ← isPunct ":" then return .param (← g.parenParam value)
      return .value value
  if ← isPunct ":" then return .param (← g.parenParam value)
  return .value value

/-- The entries up to the closing parenthesis, and the comma before it if there is one. -/
def parenItems (g : Grammar) : Parser (List ParenItem × Option Nat) := do
  expect "("
  let (items, comma) ← within ({ · with expectsColon := false, allowIn := true }) <|
    g.iterate (fun ((acc, comma) : List ParenItem × Option Nat) => do
      if ← isPunct ")" then return none
      let item ← g.parenItem
      if ← isPunct ")" then return some (item :: acc, comma)
      expect ","
      if ← isPunct ")" then return some (item :: acc, some (← lastStart))
      return some (item :: acc, comma)) ([], none)
  expect ")"
  return (items.reverse, comma)

/-- Entries as the parameters of an arrow function. -/
def paramsOfItems (comma : Option Nat) : List ParenItem → Parser (List Pattern)
  | [] => return []
  | item :: items => do
    let param ← match item with
      | .param param => pure param
      | .value (.spread start inner) => do
        if let .assign _ _ _ := inner then note .invalidPattern start
        pure (.rest start (← toPattern .binding inner) [])
      | .value value => toPattern .binding value
    if param.isRest then
      noteIf (!items.isEmpty) .restNotLast param.start
      if items.isEmpty then
        if let some place := comma then note .commaAfterRest place
    for id in param.names do noteIf (isRestricted id.name) .restrictedName id.span.start
    return param :: (← paramsOfItems comma items)

/-- An arrow function from its arrow on. -/
def arrowFrom (g : Grammar) (start : Nat) (isAsync : Bool) (items : List ParenItem)
    (comma : Option Nat) (types : List Part) : Parser Expr := do
  expect "=>"
  let params ← paramsOfItems comma items
  let body ← g.arrowBody isAsync params
  return .arrow start (.mk params body types)

/-- What entries mean that turned out to be no parameters. -/
def valueOfItems (start : Nat) (async? : Option Ident) (items : List ParenItem) (comma : Option Nat) :
    Parser Expr := do
  let values ← items.mapM fun item => match item with
    | .value e => pure e
    | .param p => fail .invalidPattern p.start
  for value in values do
    if let .object _ members := value then
      for member in members do
        if let .withDefault span _ _ := member then note .defaultInObject span.start
  match async? with
  | some async => return .call (.ident async) values []
  | none =>
    if let some place := comma then fail .expressionExpected (place + 1)
    for value in values do
      if let .spread spreadStart _ := value then fail .spreadInParentheses spreadStart
    match values with
    | [] => fail .emptyParentheses start
    | [value] => return .paren start value
    | first :: _ => return .paren start (.compound first.start (values.map .expr))

/-- What is in parentheses, or an arrow function; `async?` is the word before them if it is `async`. -/
def parenOrArrow (g : Grammar) (mayBeArrow : Bool) (async? : Option Ident) : Parser Expr := do
  let start := (async?.map (·.span.start)).getD (← offset)
  let isAsync := async?.isSome
  let (items, comma) ← g.parenItems
  let context ← read
  let isTyped := context.typescript && (← isPunct ":")
  if isTyped && context.inConditional then
    let arrow ← trial? do
      let result ← g.resultType ":"
      let arrow ← g.arrowFrom start isAsync items comma result
      if context.expectsColon && !(← isPunct ":") then unexpected
      return arrow
    if let some arrow := arrow then return arrow
  let result ← if isTyped && !context.expectsColon then
    trial? do
      let result ← g.resultType ":"
      unless ← isPunct "=>" do unexpected
      return result
  else pure none
  if items.any ParenItem.isParam || result.isSome || (← isPunct "=>") then
    if ← afterBreak then fail .lineBreakBeforeArrow start
    if !mayBeArrow then fail .arrowNotAllowed start
    let arrow ← g.arrowFrom start isAsync items comma (result.getD [])
    if let .arrow _ (.mk _ (.block _) _) := arrow then
      noteIf (← token).binaryOp?.isSome .unexpectedToken (← offset)
    return arrow
  valueOfItems start async? items comma

/-- An arrow function of one parameter without parentheses, from its arrow on. -/
def nameArrow (g : Grammar) (start : Nat) (isAsync : Bool) (id : Ident) : Parser Expr := do
  expect "=>"
  noteIf (isRestricted id.name) .restrictedName id.span.start
  let params : List Pattern := [.ident id []]
  let body ← g.arrowBody isAsync params
  return .arrow start (.mk params body [])

/-- A name where `async` may open an arrow function or a call. -/
def asyncName (g : Grammar) (id : Ident) (mayBeArrow : Bool) : Parser Expr := do
  if (← afterBreak) || !mayBeArrow then return .ident id
  if ← isPunct "(" then return ← g.parenOrArrow mayBeArrow (some id)
  if ← isName then
    let next ← peek
    if (← isWord "of") && (← read).inAwaitHead && next.token != .punct "=>" then return .ident id
    let param ← bindingIdent false
    if (← isTypeScript) && param.name == "as" && !(← isPunct "=>") then
      return .assertion id.span.start .asType (.ident id) (← g.type)
    return ← g.nameArrow id.span.start true param
  return .ident id

def nameExpr (g : Grammar) (mayBeArrow : Bool) : Parser Expr := do
  let isAsync ← isWord "async"
  let id ← identifier true
  if mayBeArrow && !(← afterBreak) && (← isPunct "=>") then
    return ← g.nameArrow id.span.start false id
  if isAsync then g.asyncName id mayBeArrow else return .ident id

def functionExpr (g : Grammar) : Parser Expr := do
  let start ← offset
  let isAsync ← eatWord "async"
  let (name, func) ← g.functionRule isAsync false
  return .function start name func

def classExpr (g : Grammar) : Parser Expr := do
  let start ← offset
  let (name, parts) ← g.classRule false
  return .compound start ((name.map Part.ident).toList ++ parts)

def literalWord (kind : Literal) : Parser Expr := do
  let start ← offset
  advance
  return .literal kind start

def wordExpr (g : Grammar) (name : String) (mayBeArrow : Bool) : Parser Expr := do
  let start ← offset
  match name with
  | "this" =>
    advance
    return .this start
  | "function" => g.functionExpr
  | "class" => g.classExpr
  | "null" => literalWord .null
  | "true" | "false" => literalWord .boolean
  | "async" =>
    if (← isWord "async") && (← nextIsWordOnLine "function") then g.functionExpr
    else g.nameExpr mayBeArrow
  | name =>
    if isKeyword name && !(["let", "yield", "await"].contains name) then fail .expressionExpected start
    else g.nameExpr mayBeArrow

def primary (g : Grammar) : Parser Expr := do
  let c ← cursor
  let start := c.span.start
  let mayBeArrow := (← get).arrowStart == some start
  match c.token with
  | .string value =>
    advance
    return .string ⟨value, c.span⟩
  | .number => literalWord .number
  | .bigint => literalWord .bigint
  | .privateName _ =>
    advance
    unless ← isWord "in" do unexpected
    return .compound start []
  | .punct "(" => g.parenOrArrow mayBeArrow none
  | .punct "[" => g.arrayLiteral
  | .punct "\x7b" => g.objectLiteral
  | .punct "`" => g.templateLiteral
  | .punct "/" | .punct "/=" => regexLiteral
  | .word name _ => g.wordExpr name mayBeArrow
  | _ => fail .expressionExpected start

end Grammar

end ComponentDoc.Script
