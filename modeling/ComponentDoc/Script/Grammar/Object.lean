import ComponentDoc.Script.Grammar.Function

namespace ComponentDoc.Script

open Script.Parser Text

namespace Grammar

/-- The span from an offset to the end of what has been read. -/
def spanFrom (start : Nat) : Parser Span :=
  return ⟨start, ← lastStop⟩

def method (g : Grammar) (start : Nat) (key : Key) (isAsync isGenerator : Bool) : Parser Member := do
  let func ← g.functionFrom { isAsync, isGenerator, isMethod := true } g.formalParams
  return .method (← spanFrom start) key func

def getter (g : Grammar) (start : Nat) : Parser Member := do
  let key ← g.propertyKey
  let .mk _ body types ← g.functionFrom { isMethod := true } (g.getterParams key.start)
  return .getter (← spanFrom start) key (.mk [] body types)

def setter (g : Grammar) (start : Nat) : Parser Member := do
  let key ← g.propertyKey
  let .mk params body _ ← g.functionFrom { isMethod := true } (g.setterParams key.start)
  return .setter (← spanFrom start) key (.mk params body [])

/-- A member after a name that is neither a key before a colon nor a method. -/
def memberAfterName (g : Grammar) (start : Nat) (id : Ident) : Parser Member := do
  if ← eat "?" then note .unexpectedToken (← lastStart)
  if ← isOneOf ["=", ",", "\x7d"] then
    noteIf (isReserved id.name) .reservedWord id.span.start
    if ← eat "=" then
      let value ← g.assignmentWithIn
      return .withDefault (← spanFrom start) id value
    return .shorthand id
  match id.name with
  | "get" => g.getter start
  | "set" => g.setter start
  | "async" =>
    let isGenerator ← eat "*"
    g.method start (← g.propertyKey) true isGenerator
  | _ => unexpected

def objectMember (g : Grammar) : Parser Member := do
  let start ← offset
  if ← eat "..." then
    let inner ← g.assignmentWithIn
    return .spread (← spanFrom start) inner
  if ← eat "*" then return ← g.method start (← g.propertyKey) false true
  discard eatParameterModifier
  let key ← g.propertyKey
  if ← eat ":" then
    let value ← g.assignmentWithIn
    return .keyValue (← spanFrom key.start) key value
  if (← isPunct "(") || ((← isTypeScript) && (← isPunct "<")) then
    return ← g.method start key false false
  match key with
  | .name id => g.memberAfterName start id
  | _ => unexpected

def objectLiteral (g : Grammar) : Parser Expr := do
  let start ← offset
  let (members, comma) ← g.braceList g.objectMember
  if let some place := comma then
    modify fun s => { s with trailingCommas := (start, place) :: s.trailingCommas }
  return .object start members

end Grammar

end ComponentDoc.Script
