import ComponentDoc.Script.Grammar.Params

/-!
Targets of assignments. What stands before `=` or `=>` is read as an expression first and turned into a
pattern when the operator shows what it is.
-/
namespace ComponentDoc.Script

open Script.Parser

/-- An expression that takes one value as it is. -/
def Expr.isSimpleTarget : Expr → Bool
  | .ident id => !isRestricted id.name
  | .member _ _ => true
  | .index _ _ => true
  | .paren _ inner => inner.isSimpleTarget
  | .assertion _ _ inner _ => inner.isSimpleTarget
  | _ => false

/-- An expression that may stand before an assignment operator at all. -/
def Expr.isTargetForm : Expr → Bool
  | .ident _ => true
  | .member _ _ => true
  | .index _ _ => true
  | .optional _ => true
  | .paren _ _ => true
  | .assertion _ kind _ _ => kind != .asConst
  | _ => false

/-- In a typed script a target that is no simple one is refused here only if no later reader of types
would refuse it anyway. -/
def Expr.deniedAsTarget (denyCall : Bool) : Expr → Bool
  | .string _ => false
  | .literal _ _ => false
  | .call _ _ _ => denyCall
  | .binary _ _ _ => false
  | .paren _ inner => inner.deniedAsTarget denyCall
  | _ => true

/-- Notes a fault unless a value may be assigned to the expression. -/
def checkTarget (e : Expr) (denyCall : Bool) : Parser Unit := do
  let isDenied := !(← isTypeScript) || e.deniedAsTarget denyCall
  noteIf (!e.isSimpleTarget && isDenied) .invalidTarget e.start

/-- What a pattern is for: an assignment, a part of one, or a binding. -/
inductive TargetKind where
  | assignment
  | element
  | binding
deriving DecidableEq

/-- What the parts of a pattern are for. -/
def TargetKind.inner : TargetKind → TargetKind
  | .binding => .binding
  | _ => .element

/-- Parts of an assigned pattern that are targets as they are, or fail to be. -/
def Expr.isElementForm : Expr → Bool
  | .ident _ => true
  | .string _ => true
  | .literal _ _ => true
  | .template _ _ _ => true
  | .function _ _ _ => true
  | .call _ _ _ => true
  | .member _ _ => true
  | .index _ _ => true
  | .paren _ _ => true
  | .assertion _ kind _ _ => kind == .asType
  | _ => false

/-- The pattern that an expression is where it takes nothing apart. -/
def Expr.plainPattern : Expr → Pattern
  | .ident id => .ident id []
  | e => .target e

/-- No comma may follow the rest of a literal that starts here. -/
def checkCommaAfterRest (start : Nat) : Parser Unit := do
  match (← get).trailingCommas.lookup start with
  | some comma => note .commaAfterRest comma
  | none => return

mutual

/-- The pattern that an expression spells. -/
def toPattern (kind : TargetKind) : Expr → Parser Pattern
  | .object start members => return .object start (← toProperties kind.inner start members) []
  | .array start elements => return .array start (← toElements kind.inner start elements) []
  | .assign "=" (.target target) value => do
    if kind == .assignment then checkTarget (.assign "=" (.target target) value) true
    return .withDefault (← toPattern kind.inner target) value
  | .assign "=" target value => do
    if kind == .assignment then checkTarget (.assign "=" target value) true
    return .withDefault target value
  | e => do
    match kind with
    | .assignment =>
      checkTarget e true
      return e.plainPattern
    | .element =>
      noteIf (!e.isElementForm) .invalidPattern e.start
      noteIf (e.isElementForm && !e.isSimpleTarget) .invalidTarget e.start
      return e.plainPattern
    | .binding =>
      if let .ident id := e then return .ident id []
      note .invalidPattern e.start
      return .hole

/-- The elements of an array pattern. -/
def toElements (kind : TargetKind) (start : Nat) : List Expr → Parser (List Pattern)
  | [] => return []
  | .hole :: es => return .hole :: (← toElements kind start es)
  | .spread spreadStart inner :: es => do
    if es.isEmpty then checkCommaAfterRest start else note .restNotLast spreadStart
    if let .assign _ _ _ := inner then note .invalidPattern spreadStart
    let rest := .rest spreadStart (← toPattern kind inner) []
    return rest :: (← toElements kind start es)
  | e :: es => do
    let first ← toPattern kind e
    return first :: (← toElements kind start es)

/-- The properties of an object pattern. -/
def toProperties (kind : TargetKind) (start : Nat) : List Member → Parser (List PatternProperty)
  | [] => return []
  | .shorthand id :: ms => return .shorthand id none :: (← toProperties kind start ms)
  | .withDefault _ id value :: ms => return .shorthand id (some value) :: (← toProperties kind start ms)
  | .keyValue _ key value :: ms => do
    let first ← toPattern kind value
    return .keyValue key first :: (← toProperties kind start ms)
  | .spread span inner :: ms => do
    if ms.isEmpty then checkCommaAfterRest start else note .restNotLast span.start
    if let .assign _ _ _ := inner then note .invalidPattern span.start
    let rest := .rest span.start (← toPattern kind inner)
    return rest :: (← toProperties kind start ms)
  | .method span _ _ :: _ => fail .invalidPattern span.start
  | .getter span _ _ :: _ => fail .invalidPattern span.start
  | .setter span _ _ :: _ => fail .invalidPattern span.start

end

/-- What stands before an assignment operator as the target of it. -/
def toTarget (op : String) (e : Expr) : Parser Pattern := do
  if op == "=" then
    match e with
    | .object _ _ | .array _ _ => toPattern .assignment e
    | _ =>
      let pattern ← toPattern .assignment e
      if e.isTargetForm then return pattern else fail .invalidTarget e.start
  else
    noteIf (!e.isSimpleTarget) .invalidTarget e.start
    if e.isTargetForm then return e.plainPattern else fail .invalidTarget e.start

namespace Grammar

/-- Goes on with an assignment if an operator of one follows. -/
def finishAssignment (g : Grammar) (target : Expr) : Parser Expr := do
  match (← token) with
  | .punct op =>
    if assignOperators.contains op then
      let pattern ← toTarget op target
      advance
      return .assign op pattern (← g.assignment)
    else return target
  | _ => return target

end Grammar

end ComponentDoc.Script
