import ComponentDoc.Script.Grammar.Object

/-!
Classes. A class is known by its parts alone: its members, then what it extends and the types in its
head.
-/
namespace ComponentDoc.Script

open Script.Parser

/-- Names of types that no class may take. -/
def typeWords : List String :=
  ["string", "null", "number", "object", "any", "unknown", "boolean", "bigint", "symbol", "void",
   "never", "intrinsic"]

def Key.parts : Key → List Part
  | .computed _ inner => [.expr inner]
  | _ => []

/-- The key under which a constructor is written. -/
def Key.isConstructor : Key → Bool
  | .name id => id.name == "constructor"
  | .string lit => lit.value == .text "constructor"
  | _ => false

def Key.isPrototype : Key → Bool
  | .name id => id.name == "prototype"
  | .string lit => lit.value == .text "prototype"
  | _ => false

/-- A member of a class so far: the words before it, and where it starts. -/
structure MemberHead where
  start : Nat
  isStatic : Bool
  isAbstract : Bool := false
  isReadonly : Bool := false
  isOverride : Bool := false
  hasAccess : Bool := false
  isDeclared : Bool := false

/-- The parts of a member, and whether it is a constructor with a body. -/
structure ClassMember where
  parts : List Part
  isConstructor : Bool := false

namespace Grammar

/-- A key, or a private name, which is no key of its own. -/
def memberKey (g : Grammar) : Parser (Option Key) := do
  match (← token) with
  | .privateName name =>
    noteIf (name == "constructor") .badMemberName (← offset)
    advance
    return none
  | _ => return some (← g.propertyKey)

def startsMethod : Parser Bool := do
  return (← isPunct "(") || ((← isTypeScript) && (← isPunct "<"))

/-- The member that has just been named is a property; the flag lets a line break end it. -/
def startsProperty (acrossLines : Bool) : Parser Bool := do
  if (← isTypeScript) && (← isOneOf ["!", ":"]) then return true
  if ← isOneOf ["=", "\x7d"] then return true
  if acrossLines then isSemicolon else isPunct ";"

def keyParts (key : Option Key) : List Part :=
  (key.map Key.parts).getD []

/-- A method from its type parameters on. -/
def methodOf (g : Grammar) (head : MemberHead) (key : Option Key) (isAsync isGenerator : Bool)
    (params : Parser (List Pattern)) : Parser ClassMember := do
  noteIf (head.isStatic && key.any Key.isPrototype) .badMemberName head.start
  noteIf head.isReadonly .badModifier head.start
  noteIf (key.isNone && (head.hasAccess || head.isAbstract)) .badModifier head.start
  let func ← within ({ · with inClassField := false }) <|
    g.functionFrom { isAsync, isGenerator, isMethod := true } params
  if let .mk _ (.block _) _ := func then noteIf head.isAbstract .badModifier head.start
  return ⟨keyParts key ++ [.func func], false⟩

/-- A property from what follows its name on. -/
def propertyOf (g : Grammar) (head : MemberHead) (keyStart : Nat) (key : Option Key)
    (isOptional : Bool) : Parser ClassMember := do
  if key.any Key.isConstructor then fail .badConstructor keyStart
  noteIf (key.isNone && (head.hasAccess || head.isDeclared)) .badModifier head.start
  if (← isTypeScript) && !isOptional then discard (eat "!")
  let type ← g.typeAnnotation?
  let value ← if ← eat "=" then
    let value ← within (fun c => { c with
      inClassField := true, allowIn := true, superAllowed := true, newTargetAllowed := true }) g.assignment
    pure [.expr value]
  else pure []
  noteIf (head.isAbstract && !value.isEmpty) .badModifier head.start
  unless ← eatSemicolon do note .semicolonExpected (← offset)
  return ⟨keyParts key ++ value ++ type, false⟩

/-- Words that turn a constructor parameter into a property. -/
def propertyModifiers : List String :=
  ["public", "protected", "private", "override", "readonly"]

def constructorParam (g : Grammar) : Parser Pattern := do
  let start ← offset
  if !(← isTypeScript) then return ← g.plainParam
  let modifiers ← g.iterate (fun (n : Nat) => do
    match ← modifier? propertyModifiers with
    | some _ => return some (n + 1)
    | none => return none) 0
  let param ← g.plainParam
  let inner := match param with
    | .withDefault inner _ => inner
    | other => other
  if modifiers != 0 && !inner.isSimple then fail .badParameter start
  return param

def constructorOf (g : Grammar) (head : MemberHead) : Parser ClassMember := do
  noteIf (head.isStatic || head.isAbstract || head.isOverride || head.isReadonly) .badConstructor
    head.start
  if (← isTypeScript) && (← isPunct "<") then
    let start ← offset
    discard g.typeParameters
    note .badConstructor start
  let kind : FuncKind := { isMethod := true }
  expect "("
  let params ← within (Context.inParams kind) (g.paramList g.constructorParam)
  expect ")"
  if (← isTypeScript) && (← isPunct ":") then
    let start ← offset
    discard g.typeAnnotation
    note .badConstructor start
  let body ← within ({ · with inClassField := false }) (g.functionBody kind params)
  let hasBody := match body with
    | .absent => false
    | _ => true
  return ⟨[.func (.mk params body [])], hasBody⟩

def staticBlock (g : Grammar) : Parser ClassMember := do
  let statements ← within (fun c => { c with
    inStaticBlock := true, inClassField := true, superAllowed := true, newTargetAllowed := true,
    breakAllowed := false, continueAllowed := false, allowIn := true }) (withLabels [] g.block)
  return ⟨statements.map .stmt, false⟩

/-- A member from its name on. -/
def namedMember (g : Grammar) (head : MemberHead) : Parser ClassMember := do
  if ← eat "*" then
    let key ← g.memberKey
    noteIf (key.any Key.isConstructor) .badConstructor head.start
    return ← g.methodOf head key false true g.formalParams
  let keyStart ← offset
  let key ← if head.isReadonly && (← isOneOf ["!", ":"]) then pure none else g.memberKey
  let isOptional ← if ← isTypeScript then eat "?" else pure false
  if ← startsMethod then
    if key.any Key.isConstructor then return ← g.constructorOf head
    return ← g.methodOf head key false false g.formalParams
  let name := match key with
    | some (.name id) => id.name
    | _ => ""
  let isAccessor := (name == "get" || name == "set") && !(← startsProperty false)
    && !((← afterBreak) && (← isPunct "*"))
  if !isAccessor && (← startsProperty true) then return ← g.propertyOf head keyStart key isOptional
  if name == "async" && !(← afterBreak) then
    let isGenerator ← eat "*"
    let keyStart ← offset
    let key ← g.memberKey
    if key.any Key.isConstructor then fail .badConstructor keyStart
    if ← isTypeScript then discard (eat "?")
    return ← g.methodOf head key true isGenerator g.formalParams
  if isAccessor then
    let keyStart ← offset
    let key ← g.memberKey
    noteIf (key.any Key.isConstructor) .badConstructor keyStart
    let params := if name == "get" then g.getterParams keyStart else g.setterParams keyStart
    return ← g.methodOf head key false false params
  unexpected

/-- The words `abstract`, `readonly` and `override`, each at most once. -/
def memberModifiers (g : Grammar) (head : MemberHead) : Parser MemberHead :=
  g.iterate (fun (head : MemberHead) => do
    if !(← isTypeScript) then return none
    match ← modifier? ["abstract", "readonly", "override", "static"] with
    | some "abstract" =>
      noteIf (head.isAbstract || head.isOverride || head.isReadonly) .badModifier head.start
      return some { head with isAbstract := true }
    | some "readonly" =>
      noteIf head.isReadonly .badModifier head.start
      return some { head with isReadonly := true }
    | some "override" =>
      noteIf (head.isOverride || head.isReadonly || head.isDeclared) .badModifier head.start
      return some { head with isOverride := true }
    | some _ =>
      noteIf head.isOverride .badModifier head.start
      return some head
    | none => return none) head

/-- A word that would open a member, taken as the name of one. -/
def memberNamedBy (g : Grammar) (head : MemberHead) (word : Ident) (acrossLines : Bool) :
    Parser (Option ClassMember) := do
  let isOptional ← if ← isTypeScript then
    lookAhead (do expect "?"; return (← startsMethod) || (← startsProperty acrossLines))
  else pure false
  if isOptional then advance
  if ← startsMethod then
    return some (← g.methodOf head (some (.name word)) false false g.formalParams)
  if ← startsProperty acrossLines then
    return some (← g.propertyOf head word.span.start (some (.name word)) isOptional)
  return none

def accessModifiers : List String :=
  ["public", "protected", "private"]

def classMember (g : Grammar) : Parser ClassMember := do
  let head : MemberHead := { start := ← offset, isStatic := false }
  let ts ← isTypeScript
  let declared ← if ts && (← isWord "declare") then some <$> identName else pure none
  if let some word := declared then
    if let some member ← g.memberNamedBy head word true then return member
  let hasAccess ← if ts then pure (← modifier? accessModifiers).isSome else pure false
  let isDeclared ← if declared.isNone && hasAccess && ts then
    pure (← modifier? ["declare"]).isSome
  else pure declared.isSome
  let head := { head with hasAccess, isDeclared }
  let static? ← if ← isWord "static" then some <$> identName else pure none
  if let some word := static? then
    unless ← isPunct "\x7b" do
      if let some member ← g.memberNamedBy head word false then return member
  let head ← g.memberModifiers { head with isStatic := static?.isSome }
  if ts then discard (modifier? ["accessor"])
  if head.isStatic && (← isPunct "\x7b") then
    noteIf (head.hasAccess || head.isDeclared) .badModifier head.start
    return ← g.staticBlock
  if ts && !head.isAbstract && !head.isOverride && !head.hasAccess then
    if (← isPunct "[") && (← opensIndexSignature) then
      let signature ← g.indexSignature
      memberEnd
      return ⟨signature, false⟩
  g.namedMember head

def classBody (g : Grammar) : Parser (List Part) := do
  expect "\x7b"
  let (parts, _) ← g.iterate (fun ((acc, hasConstructor) : List (List Part) × Bool) => do
    if (← isPunct "\x7d") || (← isEof) then return none
    if ← eat ";" then return some (acc, hasConstructor)
    let start ← offset
    let member ← g.classMember
    noteIf (member.isConstructor && hasConstructor && !(← read).ambient) .duplicateConstructor start
    return some (member.parts :: acc, hasConstructor || member.isConstructor)) ([], false)
  expect "\x7d"
  return parts.reverse.flatten

/-- Types that a class or an interface builds on. -/
def heritage (g : Grammar) : Parser (List Part) := do
  let first ← heritageType
  let more ← g.repeatWhile (isPunct ",") (do advance; heritageType)
  return first ++ more.flatten
where
  heritageType : Parser (List Part) := do
    let entity ← g.entityName
    return entity ++ (← if ← startsWith '<' then g.typeArguments else pure [])

/-- What a class extends, and the type arguments that it passes on. -/
def superclass (g : Grammar) : Parser (List Part × List Part) := do
  match ← g.callable with
  | .assertion _ .instantiation inner types => return ([.expr inner], types)
  | value =>
    if (← isTypeScript) && (← isPunct "<") then return ([.expr value], ← g.typeArguments)
    else return ([.expr value], [])

/-- A class from its `class` on, with its name if it has one. -/
def classRule (g : Grammar) (needsName : Bool) : Parser (Option Ident × List Part) := do
  expectWord "class"
  let ts ← isTypeScript
  let isNamed := (← isAnyWord) && !(← isWord "extends") && !(ts && (← isWord "implements"))
  let name ← if needsName || isNamed then some <$> bindingIdent true else pure none
  if let some id := name then noteIf (ts && typeWords.contains id.name) .restrictedName id.span.start
  let generics ← g.typeParameters?
  let (base, baseTypes) ← if ← eatWord "extends" then g.superclass else pure ([], [])
  if ← isWord "extends" then fail .unexpectedToken (← offset)
  let interfaces ← if ts && (← isWord "implements") then
    advance
    g.heritage
  else pure []
  let members ← g.classBody
  return (name, members ++ base ++ generics ++ baseTypes ++ interfaces)

end Grammar

end ComponentDoc.Script
