import ComponentDoc.Script.Tree

/-!
What a reader of a syntax tree meets, in order: every identifier, and every call together with the
innermost expression statement around it. Types count as far as they name something; the type
parameters and the result type of a function come after its body, the type of a getter before it.
-/
namespace ComponentDoc.Script

inductive Visit where
  | ident (id : Ident)
  /-- A call, with the start of the expression statement that it is part of. -/
  | call (statement : Option Nat) (callee : Expr) (arguments : List Expr)

mutual

def Expr.visits : Expr → Option Nat → List Visit
  | .ident id, _ => [.ident id]
  | .this _, _ => []
  | .string _, _ => []
  | .literal _ _, _ => []
  | .template _ _ substitutions, s => exprsVisits substitutions s
  | .array _ elements, s => exprsVisits elements s
  | .hole, _ => []
  | .spread _ inner, s => inner.visits s
  | .object _ members, s => membersVisits members s
  | .function _ none func, s => func.visits s
  | .function _ (some name) func, s => .ident name :: func.visits s
  | .arrow _ func, s => func.visits s
  | .unary _ _ operand, s => operand.visits s
  | .binary _ left right, s => left.visits s ++ right.visits s
  | .assign _ target value, s => target.visits s ++ value.visits s
  | .conditional test yes no, s => test.visits s ++ yes.visits s ++ no.visits s
  | .call callee arguments types, s =>
    .call s callee arguments :: (callee.visits s ++ exprsVisits arguments s ++ partsVisits types s)
  | .member object _, s => object.visits s
  | .index object key, s => object.visits s ++ key.visits s
  | .optional (.call callee arguments types), s =>
    callee.visits s ++ exprsVisits arguments s ++ partsVisits types s
  | .optional link, s => link.visits s
  | .paren _ inner, s => inner.visits s
  | .assertion _ _ inner type, s => inner.visits s ++ partsVisits type s
  | .compound _ parts, s => partsVisits parts s

def exprsVisits : List Expr → Option Nat → List Visit
  | [], _ => []
  | e :: es, s => e.visits s ++ exprsVisits es s

def Member.visits : Member → Option Nat → List Visit
  | .keyValue _ key value, s => key.visits s ++ value.visits s
  | .method _ key func, s => key.visits s ++ func.visits s
  | .getter _ key (.mk _ body types), s => key.visits s ++ partsVisits types s ++ body.visits s
  | .setter _ key (.mk params body _), s => key.visits s ++ patternsVisits params s ++ body.visits s
  | .shorthand id, _ => [.ident id]
  | .withDefault _ id value, s => .ident id :: value.visits s
  | .spread _ inner, s => inner.visits s

def membersVisits : List Member → Option Nat → List Visit
  | [], _ => []
  | m :: ms, s => m.visits s ++ membersVisits ms s

/-- A key counts only if it is computed. -/
def Key.visits : Key → Option Nat → List Visit
  | .name _, _ => []
  | .string _, _ => []
  | .number _, _ => []
  | .computed _ inner, s => inner.visits s

def Func.visits : Func → Option Nat → List Visit
  | .mk params body types, s => patternsVisits params s ++ body.visits s ++ partsVisits types s

def Body.visits : Body → Option Nat → List Visit
  | .block statements, s => stmtsVisits statements s
  | .expr value, s => value.visits s
  | .absent, _ => []

def Pattern.visits : Pattern → Option Nat → List Visit
  | .ident id type, s => .ident id :: partsVisits type s
  | .hole, _ => []
  | .array _ elements type, s => patternsVisits elements s ++ partsVisits type s
  | .object _ properties type, s => propertiesVisits properties s ++ partsVisits type s
  | .rest _ inner type, s => inner.visits s ++ partsVisits type s
  | .withDefault inner value, s => inner.visits s ++ value.visits s
  | .target inner, s => inner.visits s

def patternsVisits : List Pattern → Option Nat → List Visit
  | [], _ => []
  | p :: ps, s => p.visits s ++ patternsVisits ps s

def PatternProperty.visits : PatternProperty → Option Nat → List Visit
  | .keyValue key value, s => key.visits s ++ value.visits s
  | .shorthand id none, _ => [.ident id]
  | .shorthand id (some value), s => .ident id :: value.visits s
  | .rest _ inner, s => inner.visits s

def propertiesVisits : List PatternProperty → Option Nat → List Visit
  | [], _ => []
  | p :: ps, s => p.visits s ++ propertiesVisits ps s

def Stmt.visits : Stmt → Option Nat → List Visit
  | .expr start value, _ => value.visits (some start)
  | .declaration decl, s => decl.visits s
  | .labeled label body, s => .ident label :: body.visits s
  | .return none, _ => []
  | .return (some value), s => value.visits s
  | .empty, _ => []
  | .compound parts, s => partsVisits parts s

def stmtsVisits : List Stmt → Option Nat → List Visit
  | [], _ => []
  | t :: ts, s => t.visits s ++ stmtsVisits ts s

def Decl.visits : Decl → Option Nat → List Visit
  | .vars _ _ declarators, s => declaratorsVisits declarators s
  | .function _ name func, s => .ident name :: func.visits s
  | .classDecl name parts, s => .ident name :: partsVisits parts s
  | .compound parts, s => partsVisits parts s

def Declarator.visits : Declarator → Option Nat → List Visit
  | .mk _ pattern none, s => pattern.visits s
  | .mk _ pattern (some value), s => pattern.visits s ++ value.visits s

def declaratorsVisits : List Declarator → Option Nat → List Visit
  | [], _ => []
  | d :: ds, s => d.visits s ++ declaratorsVisits ds s

def Part.visits : Part → Option Nat → List Visit
  | .ident id, _ => [.ident id]
  | .expr value, s => value.visits s
  | .pattern pattern, s => pattern.visits s
  | .func func, s => func.visits s
  | .stmt statement, s => statement.visits s

def partsVisits : List Part → Option Nat → List Visit
  | [], _ => []
  | p :: ps, s => p.visits s ++ partsVisits ps s

end

end ComponentDoc.Script
