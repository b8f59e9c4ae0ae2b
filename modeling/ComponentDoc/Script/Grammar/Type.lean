import ComponentDoc.Script.Grammar.Params

/-!
Types. A type is read for the sake of what it names: its parts are the identifiers and expressions in
it, in the order of the tree, where the type parameters of a function type come after its parameters and
those of a signature after its result.
-/
namespace ComponentDoc.Script

open Script.Parser

namespace Grammar

/-- Types between angle brackets; a bracket is taken off a longer punctuator where needed. -/
def angleList {α : Type} (g : Grammar) (p : Parser α) : Parser (List α) := do
  let start ← offset
  expectFirst '<'
  let list ← g.repeatWhile (return !(← startsWith '>') && !(← isEof)) do
    let a ← p
    unless ← startsWith '>' do expect ","
    return a
  noteIf list.isEmpty .badTypeList start
  return list

/-- The arguments of a generic, from `<` to `>`. -/
def typeArguments (g : Grammar) : Parser (List Part) := do
  let list ← g.angleList (within ({ · with allowConditionalType := true }) g.type)
  expectFirst '>'
  return list.flatten

/-- One type parameter: its name, bound and default. -/
def typeParameter (g : Grammar) : Parser (List Part) := do
  let _ ← g.repeatWhile (isOneOfWords ["const", "in", "out"] >>= fun is => do
    if !is then return false
    let next ← peek
    match next.token with
    | .word name false => return name != "extends"
    | _ => return false) advance
  let name ← identName
  let bound ← if ← eatWord "extends" then g.type else pure []
  let default ← if ← eat "=" then g.type else pure []
  return .ident name :: (bound ++ default)

def typeParameters (g : Grammar) : Parser (List Part) := do
  let list ← within ({ · with allowConditionalType := true }) (g.angleList g.typeParameter)
  expectFirst '>'
  return list.flatten

def typeParameters? (g : Grammar) : Parser (List Part) := do
  if (← isTypeScript) && (← isPunct "<") then g.typeParameters else return []

/-- A name, qualified or not; only the first identifier counts. -/
def entityName (g : Grammar) : Parser (List Part) := do
  let first ← identName
  let _ ← g.repeatWhile (isPunct ".") (do advance; identName)
  return [.ident first]

/-- Type arguments on the same line, if there are any. -/
def typeArgumentsOnLine (g : Grammar) : Parser (List Part) := do
  if !(← afterBreak) && (← startsWith '<') then g.typeArguments else return []

/-- A type, or a predicate such as `x is T`, after a colon or an arrow. -/
def resultType (g : Grammar) (mark : String) : Parser (List Part) := do
  expect mark
  let next ← peek
  let nextIsName := match next.token with
    | .word name _ => !isReserved name || name == "this"
    | _ => false
  if (← isWord "asserts") && nextIsName && !next.afterBreak then
    advance
    let subject ← identName
    let subjects : List Part := if subject.name == "this" then [] else [.ident subject]
    if ← eatWord "is" then return subjects ++ (← g.type) else return subjects
  else if (← isName) && next.token == .word "is" false && !next.afterBreak then
    let subject ← identName
    advance
    return .ident subject :: (← g.type)
  else within ({ · with allowConditionalType := true }) g.type

def patternParts (patterns : List Pattern) : List Part :=
  patterns.map .pattern

/-- The parameters of a function type, parentheses included. -/
def signatureParams (g : Grammar) : Parser (List Part) := do
  expect "("
  let params ← g.formalParams
  expect ")"
  return patternParts params

/-- A function type after its optional `new`. -/
def functionType (g : Grammar) : Parser (List Part) := do
  let generics ← g.typeParameters?
  let params ← g.signatureParams
  let result ← g.resultType "=>"
  return params ++ generics ++ result

/-- Reads what may begin a parameter. -/
def skipParamStart (g : Grammar) : Parser Bool := do
  discard eatParameterModifier
  if ← isAnyWord then
    advance
    return true
  if (← isPunct "\x7b") || (← isPunct "[") then
    discard (g.binding false)
    return true
  return false

/-- A parenthesis opens the parameters of a function type. -/
def opensFunctionType (g : Grammar) : Parser Bool :=
  lookAhead do
    expect "("
    if (← isPunct ")") || (← isPunct "...") then return true
    if ← g.skipParamStart then
      if ← isOneOf [":", ",", "?", "="] then return true
      if ← eat ")" then return ← isPunct "=>"
    return false

def startsFunctionType (g : Grammar) : Parser Bool := do
  if ← isPunct "<" then return true
  if ← isPunct "(" then g.opensFunctionType else return false

/-- Members end with a comma, a semicolon or a line break. -/
def memberEnd : Parser Unit := do
  unless ← eat "," do expectSemicolon

/-- The key of a member of an object type. -/
def typeKey (g : Grammar) : Parser (List Part) := do
  let c ← cursor
  match c.token with
  | .punct "[" => return [.expr (← g.computedKey)]
  | .string _ | .number | .bigint =>
    advance
    return []
  | .privateName _ =>
    note .badMemberName c.span.start
    advance
    return []
  | _ => return [.ident (← identName)]

/-- A call or construct signature after its optional `new`. -/
def callSignature (g : Grammar) : Parser (List Part) := do
  let generics ← g.typeParameters?
  let params ← g.signatureParams
  let result ← if ← isPunct ":" then g.resultType ":" else pure []
  return params ++ result ++ generics

/-- `[name: type]` opens here. -/
def opensIndexSignature : Parser Bool :=
  lookAhead do
    expect "["
    discard identName
    isPunct ":"

/-- An index signature without its end. -/
def indexSignature (g : Grammar) : Parser (List Part) := do
  expect "["
  let name ← identName
  let keyType ← g.typeAnnotation
  expect "]"
  let type ← g.typeAnnotation?
  return .ident name :: (keyType ++ type)

/-- A property or method of an object type. -/
def propertySignature (g : Grammar) : Parser (List Part) := do
  let key ← g.typeKey
  discard (eat "?")
  if (← isPunct "(") || (← isPunct "<") then
    let signature ← g.callSignature
    memberEnd
    return key ++ signature
  else
    let type ← g.typeAnnotation?
    memberEnd
    return key ++ type

/-- A getter or setter of an object type. -/
def accessorSignature (g : Grammar) : Parser (List Part) := do
  if ← eatWord "get" then
    let key ← g.typeKey
    expect "("
    expect ")"
    let type ← g.typeAnnotation?
    memberEnd
    return key ++ type
  else
    expectWord "set"
    let key ← g.typeKey
    let params ← g.signatureParams
    if params.isEmpty then unexpected
    memberEnd
    return key ++ params

def typeMember (g : Grammar) : Parser (List Part) := do
  if (← isPunct "(") || (← isPunct "<") then
    let signature ← g.callSignature
    memberEnd
    return signature
  if ← isWord "new" then
    let next ← peek
    if next.token == .punct "(" || next.token == .punct "<" then
      advance
      let signature ← g.callSignature
      memberEnd
      return signature
  let isReadonly := (← modifier? ["readonly"]).isSome
  if (← isPunct "[") && (← opensIndexSignature) then
    let signature ← g.indexSignature
    memberEnd
    return signature
  if !isReadonly then
    if let some accessor ← trial? g.accessorSignature then return accessor
  g.propertySignature

/-- The members of an object type, braces included. -/
def typeMembers (g : Grammar) : Parser (List Part) := do
  expect "\x7b"
  let members ← g.repeatWhile (return !(← isPunct "\x7d") && !(← isEof)) g.typeMember
  expect "\x7d"
  return members.flatten

/-- A brace opens a mapped type. -/
def opensMappedType : Parser Bool :=
  lookAhead do
    expect "\x7b"
    if (← isPunct "+") || (← isPunct "-") then
      advance
      return ← isWord "readonly"
    if ← isWord "readonly" then advance
    expect "["
    discard identName
    isWord "in"

/-- `+`, `-` or nothing before a mapped modifier. -/
def eatSign : Parser Unit := do
  if (← isPunct "+") || (← isPunct "-") then advance

def mappedType (g : Grammar) : Parser (List Part) := do
  expect "\x7b"
  eatSign
  discard (eatWord "readonly")
  expect "["
  let name ← identName
  expectWord "in"
  let bound ← g.type
  let renamed ← if ← eatWord "as" then g.type else pure []
  expect "]"
  eatSign
  discard (eat "?")
  let type ← g.typeAnnotation?
  discard eatSemicolon
  expect "\x7d"
  return .ident name :: (bound ++ renamed ++ type)

/-- An element of a tuple, which may have a label. -/
def tupleElement (g : Grammar) : Parser (List Part) := do
  discard (eat "...")
  let labelled ← lookAhead do
    discard identName
    discard (eat "?")
    isPunct ":"
  if labelled then
    let label ← identName
    discard (eat "?")
    expect ":"
    return .ident label :: (← g.type)
  let type ← g.type
  discard (eat "?")
  return type

/-- Passes over a stretch of a template; the flag tells whether the template ends with it. -/
def templateStretch (stretch : Cursor → List Char) (begin_ : Cursor → Nat) : Parser TemplateScan := do
  let c ← cursor
  match scanTemplate? (stretch c) (begin_ c) [] false with
  | none => fail .unterminatedTemplate c.span.start
  | some scan =>
    moveTo (·.resume scan.rest scan.stop)
    return scan

/-- The substitutions of a template that has begun and, if it began with one, not ended. -/
def substitutions {α : Type} (g : Grammar) (p : Parser α) (head : TemplateScan) :
    Parser (List α × Bool) := do
  let (read, malformed, _) ← g.iterate (fun ((acc, malformed, ended) : List α × Bool × Bool) => do
    if ended then return none
    let a ← p
    unless ← isPunct "\x7d" do unexpected
    let scan ← templateStretch (·.after) (·.span.stop)
    return some (a :: acc, malformed || scan.malformed, scan.isLast)) ([], head.malformed, head.isLast)
  return (read.reverse, malformed)

/-- A template literal type. -/
def templateType (g : Grammar) : Parser (List Part) := do
  let head ← templateStretch (·.after) (·.span.stop)
  let (types, _) ← g.substitutions g.type head
  return types.flatten

/-- `import('m').A<B>`. -/
def importType (g : Grammar) : Parser (List Part) := do
  expectWord "import"
  expect "("
  discard stringLit
  if ← eat "," then
    unless ← isPunct ")" do
      discard g.assignment
      discard (eat ",")
  expect ")"
  let qualifier ← if ← eat "." then g.entityName else pure []
  return qualifier ++ (← g.typeArgumentsOnLine)

/-- The words that are types of their own. -/
def keywordTypes : List String :=
  ["void", "null", "any", "boolean", "bigint", "never", "number", "object", "string", "symbol",
   "unknown", "undefined", "intrinsic"]

/-- Keywords that may still name a type. -/
def typeNameKeywords : List String :=
  ["yield", "await", "break", "let"]

def wordType (g : Grammar) (name : String) : Parser (List Part) := do
  let next ← peek
  if name == "asserts" && next.token == .word "this" false then
    advance
    advance
    if ← eatWord "is" then g.type else return []
  else if keywordTypes.contains name && next.token != .punct "." then
    advance
    return []
  else
    let entity ← g.entityName
    return entity ++ (← g.typeArgumentsOnLine)

def primaryType (g : Grammar) : Parser (List Part) := do
  let start ← offset
  match (← token) with
  | .string _ | .number | .bigint =>
    advance
    return []
  | .punct "-" =>
    advance
    match (← token) with
    | .number | .bigint =>
      advance
      return []
    | _ => unexpected
  | .punct "`" => g.templateType
  | .punct "(" =>
    advance
    let type ← within ({ · with allowConditionalType := true }) g.type
    expect ")"
    return type
  | .punct "[" =>
    advance
    let elements ← within ({ · with allowConditionalType := true }) (g.commaList "]" g.tupleElement)
    return elements.flatten
  | .punct "\x7b" =>
    within ({ · with allowConditionalType := true }) do
      if ← opensMappedType then g.mappedType else g.typeMembers
  | .word "this" false =>
    advance
    if !(← afterBreak) && (← isWord "is") then
      advance
      g.type
    else return []
  | .word "true" false | .word "false" false =>
    advance
    return []
  | .word "import" false => g.importType
  | .word "typeof" false =>
    advance
    let query ← if ← isWord "import" then g.importType else g.entityName
    return query ++ (← g.typeArgumentsOnLine)
  | .word name escaped =>
    if escaped || !isKeyword name || keywordTypes.contains name || typeNameKeywords.contains name then
      g.wordType name
    else fail .typeExpected start
  | _ => fail .typeExpected start

/-- Arrays and indexed access, on the same line. -/
def postfixType (g : Grammar) : Parser (List Part) := do
  let first ← g.primaryType
  let more ← g.repeatWhile (return !(← afterBreak) && (← isPunct "[")) do
    advance
    if ← eat "]" then return []
    let index ← within ({ · with allowConditionalType := true }) g.type
    expect "]"
    return index
  return first ++ more.flatten

/-- `infer T`, with a bound unless a conditional type follows. -/
def inferType (g : Grammar) : Parser (List Part) := do
  expectWord "infer"
  let name ← identName
  let bound ← trial? do
    expectWord "extends"
    let bound ← within ({ · with allowConditionalType := false }) g.type
    if (← read).allowConditionalType && (← isPunct "?") then unexpected
    return bound
  return .ident name :: bound.getD []

/-- An operator word applies to the type after it, unless it is a name itself. -/
def typeOperatorRule (g : Grammar) : Parser (List Part) := do
  if ← isOneOfWords ["keyof", "unique", "readonly"] then
    let next ← peek
    let applies := match next.token with
      | .word _ _ | .string _ | .number | .bigint => true
      | .punct text => ["(", "[", "\x7b", "`", "-"].contains text
      | _ => false
    if applies then
      advance
      return ← g.typeOperator
  if ← isWord "infer" then
    let next ← peek
    if let .word _ _ := next.token then return ← g.inferType
  g.postfixType

/-- Types joined by an operator, which may also come first. -/
def joinedTypes (g : Grammar) (operator : String) (p : Parser (List Part)) : Parser (List Part) := do
  discard (eat operator)
  let first ← p
  let more ← g.repeatWhile (isPunct operator) (do advance; p)
  return first ++ more.flatten

def unionType (g : Grammar) : Parser (List Part) :=
  g.joinedTypes "|" (g.joinedTypes "&" do
    if ← g.startsFunctionType then g.functionType else g.typeOperatorRule)

def plainType (g : Grammar) : Parser (List Part) := do
  if ← g.startsFunctionType then return ← g.functionType
  if ← isWord "new" then
    advance
    return ← g.functionType
  if (← isWord "abstract") && (← nextIsWordOnLine "new") then
    advance
    advance
    return ← g.functionType
  g.unionType

/-- A type, which may be conditional. -/
def typeRule (g : Grammar) : Parser (List Part) := do
  let checked ← g.plainType
  if !(← read).allowConditionalType || (← afterBreak) || !(← isWord "extends") then return checked
  advance
  let bound ← within ({ · with allowConditionalType := false }) g.plainType
  expect "?"
  let yes ← within ({ · with allowConditionalType := true }) g.type
  expect ":"
  let no ← within ({ · with allowConditionalType := true }) g.type
  return checked ++ bound ++ yes ++ no

end Grammar

end ComponentDoc.Script
