import ComponentDoc.Text.Offset
import ComponentDoc.Text.Surrogate

/-!
The syntax tree of a script. It keeps apart what documentation is drawn from: declarations, patterns,
object members, functions, calls and the literal values. Everything else is a compound known by its
parts alone, in the order in which a reader of identifiers and calls meets them. Types are such lists of
parts. Offsets count bytes from the start of the script.
-/
namespace ComponentDoc.Script

open Text (Span StringValue)

/-- An identifier; the span covers the spelling, escapes included, and not what is attached to it. -/
structure Ident where
  name : String
  span : Span
deriving DecidableEq, Repr, Inhabited

structure StringLit where
  value : StringValue
  span : Span
deriving DecidableEq, Repr, Inhabited

/-- The literals whose value is not needed. -/
inductive Literal where
  | number
  | bigint
  | boolean
  | null
  | regex
deriving DecidableEq, Repr, Inhabited

/-- What a type-level operator does to the expression it wraps. -/
inductive Assertion where
  | asType
  | asConst
  | satisfies
  | nonNull
  /-- A type in angle brackets before the expression. -/
  | cast
  /-- Type arguments after the expression. -/
  | instantiation
deriving DecidableEq, Repr, Inhabited

mutual

inductive Expr where
  | ident (id : Ident)
  | this (start : Nat)
  | string (lit : StringLit)
  | literal (kind : Literal) (start : Nat)
  /-- A template without a tag: its text up to the first substitution, and the substitutions. -/
  | template (start : Nat) (head : StringValue) (substitutions : List Expr)
  | array (start : Nat) (elements : List Expr)
  /-- A missing element of an array. -/
  | hole
  /-- An element or argument preceded by `...`. -/
  | spread (start : Nat) (inner : Expr)
  | object (start : Nat) (members : List Member)
  | function (start : Nat) (name : Option Ident) (func : Func)
  | arrow (start : Nat) (func : Func)
  | unary (start : Nat) (op : String) (operand : Expr)
  | binary (op : String) (left right : Expr)
  | assign (op : String) (target : Pattern) (value : Expr)
  | conditional (test yes no : Expr)
  | call (callee : Expr) (arguments : List Expr) (typeArguments : List Part)
  /-- Access to a property by name; a private name keeps its `#`. -/
  | member (object : Expr) (property : String)
  | index (object key : Expr)
  /-- A link of a chain that may be cut short by `?.`. -/
  | optional (link : Expr)
  | paren (start : Nat) (inner : Expr)
  | assertion (start : Nat) (kind : Assertion) (inner : Expr) (type : List Part)
  | compound (start : Nat) (parts : List Part)

/-- A member of an object literal. -/
inductive Member where
  | keyValue (span : Span) (key : Key) (value : Expr)
  | method (span : Span) (key : Key) (func : Func)
  | getter (span : Span) (key : Key) (func : Func)
  | setter (span : Span) (key : Key) (func : Func)
  | shorthand (id : Ident)
  /-- `name = value`, which makes sense only where the literal turns out to be a pattern. -/
  | withDefault (span : Span) (id : Ident) (value : Expr)
  | spread (span : Span) (inner : Expr)

inductive Key where
  | name (id : Ident)
  | string (lit : StringLit)
  | number (start : Nat)
  | computed (start : Nat) (inner : Expr)

/-- Parameters and body, and then the parts of the type parameters and of the result type. -/
inductive Func where
  | mk (params : List Pattern) (body : Body) (types : List Part)

inductive Body where
  | block (statements : List Stmt)
  | expr (value : Expr)
  /-- A signature without a body. -/
  | absent

/-- What a value is bound or assigned to; each pattern may carry the parts of a type. -/
inductive Pattern where
  | ident (id : Ident) (type : List Part)
  | hole
  | array (start : Nat) (elements : List Pattern) (type : List Part)
  | object (start : Nat) (properties : List PatternProperty) (type : List Part)
  | rest (start : Nat) (inner : Pattern) (type : List Part)
  | withDefault (inner : Pattern) (value : Expr)
  /-- Any other target of an assignment. -/
  | target (inner : Expr)

inductive PatternProperty where
  | keyValue (key : Key) (value : Pattern)
  | shorthand (id : Ident) (default : Option Expr)
  | rest (start : Nat) (inner : Pattern)

inductive Stmt where
  | expr (start : Nat) (value : Expr)
  | declaration (decl : Decl)
  | labeled (label : Ident) (body : Stmt)
  | return (argument : Option Expr)
  | empty
  | compound (parts : List Part)

inductive Decl where
  | vars (start : Nat) (constant : Bool) (declarators : List Declarator)
  | function (start : Nat) (name : Ident) (func : Func)
  | classDecl (name : Ident) (parts : List Part)
  | compound (parts : List Part)

inductive Declarator where
  | mk (span : Span) (pattern : Pattern) (init : Option Expr)

/-- One part of a compound. -/
inductive Part where
  | ident (id : Ident)
  | expr (value : Expr)
  | pattern (pattern : Pattern)
  | func (func : Func)
  | stmt (statement : Stmt)

end

instance : Inhabited Expr := ⟨.hole⟩

instance : Inhabited Pattern := ⟨.hole⟩

instance : Inhabited Stmt := ⟨.empty⟩

mutual

/-- Where an expression starts. -/
def Expr.start : Expr → Nat
  | .ident id => id.span.start
  | .this start => start
  | .string lit => lit.span.start
  | .literal _ start => start
  | .template start _ _ => start
  | .array start _ => start
  | .hole => 0
  | .spread start _ => start
  | .object start _ => start
  | .function start _ _ => start
  | .arrow start _ => start
  | .unary start _ _ => start
  | .binary _ left _ => left.start
  | .assign _ target _ => target.start
  | .conditional test _ _ => test.start
  | .call callee _ _ => callee.start
  | .member object _ => object.start
  | .index object _ => object.start
  | .optional link => link.start
  | .paren start _ => start
  | .assertion start _ _ _ => start
  | .compound start _ => start

def Pattern.start : Pattern → Nat
  | .ident id _ => id.span.start
  | .hole => 0
  | .array start _ _ => start
  | .object start _ _ => start
  | .rest start _ _ => start
  | .withDefault inner _ => inner.start
  | .target inner => inner.start

end

def Key.start : Key → Nat
  | .name id => id.span.start
  | .string lit => lit.span.start
  | .number start => start
  | .computed start _ => start

def Member.start : Member → Nat
  | .keyValue span _ _ => span.start
  | .method span _ _ => span.start
  | .getter span _ _ => span.start
  | .setter span _ _ => span.start
  | .shorthand id => id.span.start
  | .withDefault span _ _ => span.start
  | .spread span _ => span.start

end ComponentDoc.Script
