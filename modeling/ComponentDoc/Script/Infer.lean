import ComponentDoc.Document.TypeDescriptor
import ComponentDoc.Script.Value

/-!
The type of a value, told by its spelling. A cascade of conditionals that picks one of several string
literals has the union of them as its type.
-/
namespace ComponentDoc.Script

/-- A strict comparison with a string literal. -/
def Expr.comparesLiteral (test : Expr) : Bool :=
  match test.unwrap with
  | .binary op left right => op == "===" && (left.stringLiteral?.isSome || right.stringLiteral?.isSome)
  | _ => false

/-- The string literals that a cascade of comparisons picks from. -/
def Expr.choices? : Expr → Option (List String)
  | .paren _ inner => inner.choices?
  | .assertion _ .asType inner _ => inner.choices?
  | .assertion _ .asConst inner _ => inner.choices?
  | .assertion _ .satisfies inner _ => inner.choices?
  | .assertion _ .nonNull inner _ => inner.choices?
  | .conditional test yes no =>
    if test.comparesLiteral then
      match yes.stringLiteral?, no.choices? with
      | some value, some rest => some (value :: rest)
      | _, _ => none
    else none
  | e => e.stringLiteral?.map ([·])

/-- The union type of a cascade; each constant counts once, where it first stands. -/
def Expr.stringUnion? (e : Expr) : Option TypeDescriptor :=
  match e.unwrap with
  | .conditional _ _ _ => e.choices?.map fun values => .union (values.eraseDups.map .const)
  | _ => none

def Expr.isNumber (e : Expr) : Bool :=
  match e.unwrap with
  | .literal .number _ => true
  | _ => false

def Expr.type (e : Expr) : TypeDescriptor :=
  match e.unwrap with
  | .string _ => .named "string"
  | .template _ _ _ => .named "string"
  | .literal .number _ => .named "number"
  | .literal .boolean _ => .named "boolean"
  | .unary _ op operand =>
    if (op == "-" || op == "+") && operand.isNumber then .named "number" else .any
  | .conditional _ _ _ => e.stringUnion?.getD .any
  | .array _ _ => .named "array"
  | .object _ _ => .named "object"
  | .function _ _ _ => .function
  | .arrow _ _ => .function
  | _ => .any

/-- The type of a value that may be missing. -/
def typeOf? (value : Option Expr) : TypeDescriptor :=
  match value with
  | some e => e.type
  | none => .any

/-- The type of a variable by its first value and the last one assigned to it. -/
def bindingType (init reassigned : Option Expr) : TypeDescriptor :=
  (reassigned.bind Expr.stringUnion?).getD (typeOf? init)

end ComponentDoc.Script
