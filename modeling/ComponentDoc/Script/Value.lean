import ComponentDoc.Script.Visit

/-!
What an expression stands for as far as it can be told without running it. Parentheses and the
assertions of a typed script are looked through, casts in angle brackets and type arguments are not.
-/
namespace ComponentDoc.Script

/-- An expression without the parentheses and assertions around it. -/
def Expr.unwrap : Expr → Expr
  | .paren _ inner => inner.unwrap
  | .assertion _ .asType inner _ => inner.unwrap
  | .assertion _ .asConst inner _ => inner.unwrap
  | .assertion _ .satisfies inner _ => inner.unwrap
  | .assertion _ .nonNull inner _ => inner.unwrap
  | e => e

/-- The value of a string literal, or of a template without substitutions. -/
def Expr.stringLiteral? (e : Expr) : Option String :=
  match e.unwrap with
  | .string lit => lit.value.text?
  | .template _ head [] => head.text?
  | _ => none

/-- The function that an expression spells out. -/
def Expr.func? (e : Expr) : Option Func :=
  match e.unwrap with
  | .function _ _ func => some func
  | .arrow _ func => some func
  | _ => none

/-- The names that an expression refers to, in the order in which they are first met. -/
def Expr.references (e : Expr) : List String :=
  ((e.visits none).filterMap fun v => match v with
    | .ident id => some id.name
    | .call _ _ _ => none).eraseDups

def Key.name? : Key → Option String
  | .name id => some id.name
  | .string lit => lit.value.text?
  | _ => none

/-- The name of an object member, for those that have one. -/
def Member.name? : Member → Option String
  | .keyValue _ key _ => key.name?
  | .method _ key _ => key.name?
  | .getter _ key _ => key.name?
  | .shorthand id => some id.name
  | _ => none

def Func.params : Func → List Pattern
  | .mk params _ _ => params

def Func.body : Func → Body
  | .mk _ body _ => body

/-- The value of a function that is nothing but an expression. -/
def Func.expression? (func : Func) : Option Expr :=
  match func.body with
  | .expr value => some value
  | _ => none

/-- The value of the first `return` with a value, among the statements themselves. -/
def returned? : List Stmt → Option Expr
  | [] => none
  | .return (some value) :: _ => some value
  | _ :: rest => returned? rest

/-- What a function gives back, as far as one statement tells. -/
def Func.returned? (func : Func) : Option Expr :=
  match func.body with
  | .expr value => some value
  | .block statements => Script.returned? statements
  | .absent => none

end ComponentDoc.Script
