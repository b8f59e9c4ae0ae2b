import ComponentDoc.Script.Grammar.Primary

/-!
Chains: access to members, calls, tagged templates and `new`, from left to right. Once a link may be cut
short by `?.`, so may every link after it.
-/
namespace ComponentDoc.Script

open Script.Parser

/-- The last link of the chain may be cut short. -/
def Expr.isChain : Expr → Bool
  | .optional _ => true
  | .assertion _ .nonNull inner _ => inner.isChain
  | _ => false

/-- A link after an expression. -/
def Expr.linked (object link : Expr) : Expr :=
  if object.isChain then .optional link else link

namespace Grammar

/-- The name after a dot. -/
def memberName : Parser String := do
  match (← token) with
  | .privateName name =>
    advance
    return "#" ++ name
  | _ => return (← identName).name

/-- A template with a tag. -/
def taggedTemplate (g : Grammar) (tag : Expr) (types : List Part) : Parser Expr := do
  if tag.isChain then fail .templateInChain (← offset)
  let (_, values, _) ← g.templateParts
  return .compound tag.start (.expr tag :: (types ++ values.map .expr))

/-- A key in brackets. -/
def indexKey (g : Grammar) : Parser Expr := do
  expect "["
  let key ← within ({ · with expectsColon := false }) g.expressionWithIn
  expect "]"
  return key

/-- A link after `?.`. -/
def optionalLink (g : Grammar) (object : Expr) : Parser Expr := do
  match (← token) with
  | .punct "[" => return .optional (.index object (← g.indexKey))
  | .punct "(" => return .optional (.call object (← g.arguments) [])
  | .punct "`" => fail .templateInChain (← offset)
  | .punct "<" =>
    if !(← isTypeScript) then unexpected
    let types ← g.typeArguments
    return .optional (.call object (← g.arguments) types)
  | _ => return .optional (.member object (← memberName))

/-- An asynchronous arrow function with type parameters, after its `async`. -/
def genericAsyncArrow (g : Grammar) (start : Nat) : Parser Expr := do
  let generics ← g.typeParameters
  expect "("
  let params ← within (Context.inParams { isAsync := true, isArrow := true }) g.formalParams
  expect ")"
  let result ← if ← isPunct ":" then g.resultType ":" else pure []
  expect "=>"
  let body ← g.arrowBody true params
  return .arrow start (.mk params body (generics ++ result))

/-- Type arguments and the call or template that they belong to. -/
def genericLink (g : Grammar) (mayCall : Bool) (object : Expr) : Parser Expr := do
  let types ← g.typeArguments
  if mayCall && (← isPunct "(") then return object.linked (.call object (← g.arguments) types)
  if ← isPunct "`" then return ← g.taggedTemplate object types
  if (← isPunct "=") || (← isOneOfWords ["as", "satisfies"]) then
    return .assertion object.start .instantiation object types
  unexpected

/-- An expression is the bare word `async`. -/
def isAsyncName : Expr → Bool
  | .ident id => id.name == "async"
  | _ => false

/-- One more link, if there is one. -/
def link? (g : Grammar) (mayCall : Bool) (object : Expr) : Parser (Option Expr) := do
  if ← isTypeScript then
    if !(← afterBreak) && (← isPunct "!") then
      advance
      return some (.assertion object.start .nonNull object [])
    if ← startsWith '<' then
      if let some link ← trial? (g.genericLink mayCall object) then return some link
  match (← token) with
  | .punct "?." =>
    advance
    return some (← g.optionalLink object)
  | .punct "[" => return some (object.linked (.index object (← g.indexKey)))
  | .punct "." =>
    advance
    return some (object.linked (.member object (← memberName)))
  | .punct "(" =>
    if mayCall then return some (object.linked (.call object (← g.arguments) [])) else return none
  | .punct "`" => return some (← g.taggedTemplate object [])
  | _ => return none

/-- All links that follow. -/
def links (g : Grammar) (mayCall : Bool) (object : Expr) : Parser Expr :=
  g.iterate (g.link? mayCall) object

/-- Type arguments that turn a generic into a plain value: neither a call nor a comparison follows. -/
def instantiation? (g : Grammar) : Parser (Option (List Part)) := do
  if !(← isTypeScript) || !(← startsWith '<') then return none
  trial? do
    let types ← g.typeArguments
    if ← isOneOf ["<", ">", "+", "-", "(", "`"] then unexpected
    let next ← token
    unless (← afterBreak) || next.binaryOp?.isSome || !next.startsExpr do unexpected
    return types

/-- `super` followed by what it is asked for. -/
def superExpr (g : Grammar) (mayCall : Bool) : Parser Expr := do
  let start ← offset
  advance
  noteIf (!(← isTypeScript) && !(← read).superAllowed) .superNotAllowed start
  unless (← isOneOf [".", "["]) || (mayCall && (← isPunct "(")) do unexpected
  g.links mayCall (.compound start [])

/-- `import.meta`, or a module imported on demand. -/
def importExpr (g : Grammar) (mayCall : Bool) : Parser Expr := do
  let start ← offset
  advance
  if ← eat "." then
    if ← eatWord "meta" then return ← g.links mayCall (.compound start [])
    unless (← eatWord "defer") || (← isWord "source") do unexpected
    discard (eatWord "source")
  unless mayCall && (← isPunct "(") do unexpected
  let arguments ← g.arguments
  if arguments.isEmpty then fail .expressionExpected (← lastStart)
  g.links mayCall (.call (.compound start []) arguments [])

/-- An expression as far as no call is needed to read it, and whether it is a `new` without arguments.
The flag tells that a `new` comes before it. -/
def memberOrNew (g : Grammar) (afterNew : Bool) : Parser (Expr × Bool) := do
  let start ← offset
  if ← eatWord "new" then
    if ← eat "." then
      expectWord "target"
      let context ← read
      noteIf (!context.newTargetAllowed && !context.inParameters) .newTargetNotAllowed start
      return (← g.links false (.compound start []), false)
    let callee ← g.constructed
    if let .arrow _ _ := callee then return (callee, false)
    if callee.isChain then fail .chainInConstructor callee.start
    let types ← if (← isTypeScript) && (← startsWith '<') then
      trial? do
        let types ← g.typeArguments
        unless ← isPunct "(" do unexpected
        return types
    else pure none
    let types := types.getD []
    if ← isPunct "(" then
      let arguments ← g.arguments
      let value := .compound start (.expr callee :: (arguments.map .expr ++ types))
      return (← g.links false value, false)
    let value := .compound start (.expr callee :: types)
    if afterNew then return (value, true) else return (← g.links false value, true)
  if ← isWord "super" then return (← g.superExpr false, false)
  if ← isWord "import" then return (← g.importExpr (!afterNew), false)
  let object ← g.primary
  if let .arrow _ _ := object then return (object, false)
  let object := match ← g.instantiation? with
    | some types => .assertion object.start .instantiation object types
    | none => object
  return (← g.links false object, false)

/-- What may be called or assigned to, calls included. -/
def callableRule (g : Grammar) : Parser Expr := do
  if ← isWord "super" then return ← g.superExpr true
  if ← isWord "import" then return ← g.importExpr true
  let (callee, isBareNew) ← g.memberOrNew false
  if let .arrow _ _ := callee then return callee
  if isBareNew then return callee
  if (← isTypeScript) && isAsyncName callee && (← startsWith '<') then
    if let some arrow ← trial? (g.genericAsyncArrow callee.start) then return arrow
  let types ← if (← isTypeScript) && (← startsWith '<') then
    trial? do
      let types ← g.typeArguments
      unless ← isPunct "(" do unexpected
      return types
  else pure none
  if ← isPunct "(" then
    let arguments ← g.arguments
    g.links true (callee.linked (.call callee arguments (types.getD [])))
  else return callee

end Grammar

end ComponentDoc.Script
