import ComponentDoc.Component.Basic
import ComponentDoc.Proofs.Script.Cascade
import ComponentDoc.Proofs.Script.References

/-!
Code written anew. A respelling moves everything that stands in a syntax tree, and may write shorthand members and
the arguments of calls in another way; all else it leaves as it is. What an expression is on its surface, its type
and the names in a pattern do not depend on it.
-/
namespace ComponentDoc.Script

open Text (Span)

/-- A way to write code anew. -/
structure Respelling where
  place : Nat → Nat
  span : Span → Span
  /-- How a shorthand member is written. -/
  shorthand : Ident → Member
  /-- The arguments of a call, by its callee and the arguments it had. -/
  arguments : Expr → List Expr → List Expr

variable (r : Respelling)

def Ident.respell (id : Ident) : Ident :=
  ⟨id.name, r.span id.span⟩

def StringLit.respell (lit : StringLit) : StringLit :=
  ⟨lit.value, r.span lit.span⟩

mutual

/-- The expression written anew; the links of a chain that may be cut short keep their arguments. -/
def Expr.respell : Expr → Expr
  | .ident id => .ident (id.respell r)
  | .this start => .this (r.place start)
  | .string lit => .string (lit.respell r)
  | .literal kind start => .literal kind (r.place start)
  | .template start head substitutions => .template (r.place start) head (exprsRespell substitutions)
  | .array start elements => .array (r.place start) (exprsRespell elements)
  | .hole => .hole
  | .spread start inner => .spread (r.place start) inner.respell
  | .object start members => .object (r.place start) (membersRespell members)
  | .function start name func => .function (r.place start) (name.map (·.respell r)) func.respell
  | .arrow start func => .arrow (r.place start) func.respell
  | .unary start op operand => .unary (r.place start) op operand.respell
  | .binary op left right => .binary op left.respell right.respell
  | .assign op target value => .assign op target.respell value.respell
  | .conditional test yes no => .conditional test.respell yes.respell no.respell
  | .call callee arguments types =>
    .call callee.respell (r.arguments callee.respell (exprsRespell arguments)) (partsRespell types)
  | .member object property => .member object.respell property
  | .index object key => .index object.respell key.respell
  | .optional (.call callee arguments types) =>
    .optional (.call callee.respell (exprsRespell arguments) (partsRespell types))
  | .optional link => .optional link.respell
  | .paren start inner => .paren (r.place start) inner.respell
  | .assertion start kind inner type => .assertion (r.place start) kind inner.respell (partsRespell type)
  | .compound start parts => .compound (r.place start) (partsRespell parts)

def exprsRespell : List Expr → List Expr
  | [] => []
  | e :: es => e.respell :: exprsRespell es

def Member.respell : Member → Member
  | .keyValue span key value => .keyValue (r.span span) key.respell value.respell
  | .method span key func => .method (r.span span) key.respell func.respell
  | .getter span key func => .getter (r.span span) key.respell func.respell
  | .setter span key func => .setter (r.span span) key.respell func.respell
  | .shorthand id => r.shorthand (id.respell r)
  | .withDefault span id value => .withDefault (r.span span) (id.respell r) value.respell
  | .spread span inner => .spread (r.span span) inner.respell

def membersRespell : List Member → List Member
  | [] => []
  | m :: ms => m.respell :: membersRespell ms

def Key.respell : Key → Key
  | .name id => .name (id.respell r)
  | .string lit => .string (lit.respell r)
  | .number start => .number (r.place start)
  | .computed start inner => .computed (r.place start) inner.respell

def Func.respell : Func → Func
  | .mk params body types => .mk (patternsRespell params) body.respell (partsRespell types)

def Body.respell : Body → Body
  | .block statements => .block (stmtsRespell statements)
  | .expr value => .expr value.respell
  | .absent => .absent

def Pattern.respell : Pattern → Pattern
  | .ident id type => .ident (id.respell r) (partsRespell type)
  | .hole => .hole
  | .array start elements type => .array (r.place start) (patternsRespell elements) (partsRespell type)
  | .object start properties type => .object (r.place start) (propertiesRespell properties) (partsRespell type)
  | .rest start inner type => .rest (r.place start) inner.respell (partsRespell type)
  | .withDefault inner value => .withDefault inner.respell value.respell
  | .target inner => .target inner.respell

def patternsRespell : List Pattern → List Pattern
  | [] => []
  | p :: ps => p.respell :: patternsRespell ps

def PatternProperty.respell : PatternProperty → PatternProperty
  | .keyValue key value => .keyValue key.respell value.respell
  | .shorthand id none => .shorthand (id.respell r) none
  | .shorthand id (some value) => .shorthand (id.respell r) (some value.respell)
  | .rest start inner => .rest (r.place start) inner.respell

def propertiesRespell : List PatternProperty → List PatternProperty
  | [] => []
  | p :: ps => p.respell :: propertiesRespell ps

def Stmt.respell : Stmt → Stmt
  | .expr start value => .expr (r.place start) value.respell
  | .declaration decl => .declaration decl.respell
  | .labeled label body => .labeled (label.respell r) body.respell
  | .return none => .return none
  | .return (some value) => .return (some value.respell)
  | .empty => .empty
  | .compound parts => .compound (partsRespell parts)

def stmtsRespell : List Stmt → List Stmt
  | [] => []
  | t :: ts => t.respell :: stmtsRespell ts

def Decl.respell : Decl → Decl
  | .vars start constant declarators => .vars (r.place start) constant (declaratorsRespell declarators)
  | .function start name func => .function (r.place start) (name.respell r) func.respell
  | .classDecl name parts => .classDecl (name.respell r) (partsRespell parts)
  | .compound parts => .compound (partsRespell parts)

def Declarator.respell : Declarator → Declarator
  | .mk span pattern none => .mk (r.span span) pattern.respell none
  | .mk span pattern (some value) => .mk (r.span span) pattern.respell (some value.respell)

def declaratorsRespell : List Declarator → List Declarator
  | [] => []
  | d :: ds => d.respell :: declaratorsRespell ds

def Part.respell : Part → Part
  | .ident id => .ident (id.respell r)
  | .expr value => .expr value.respell
  | .pattern pattern => .pattern pattern.respell
  | .func func => .func func.respell
  | .stmt statement => .stmt statement.respell

def partsRespell : List Part → List Part
  | [] => []
  | p :: ps => p.respell :: partsRespell ps

end

def ModuleName.respell : ModuleName → ModuleName
  | .ident id => .ident (id.respell r)
  | .string lit => .string (lit.respell r)

def Imported.respell : Imported → Imported
  | .default => .default
  | .namespace => .namespace
  | .member name typeOnly => .member (name.map (·.respell r)) typeOnly

def ImportSpecifier.respell (s : ImportSpecifier) : ImportSpecifier :=
  ⟨r.place s.start, s.imported.respell r, s.binding.respell r⟩

def Import.respell (entry : Import) : Import :=
  ⟨entry.typeOnly, entry.specifiers.map (·.respell r), entry.source.respell r⟩

def ExportSpecifier.respell : ExportSpecifier → ExportSpecifier
  | .member start source exported typeOnly =>
    .member (r.place start) (source.respell r) (exported.map (·.respell r)) typeOnly
  | .namespace start name => .namespace (r.place start) (name.respell r)

def ExportList.respell (list : ExportList) : ExportList :=
  ⟨list.typeOnly, list.specifiers.map (·.respell r), list.source.map (·.respell r)⟩

def ItemKind.respell : ItemKind → ItemKind
  | .statement t => .statement (t.respell r)
  | .imports entry => .imports (entry.respell r)
  | .exportDecl decl => .exportDecl (decl.respell r)
  | .exportList list => .exportList (list.respell r)
  | .exportDefault value => .exportDefault (value.respell r)
  | .compound parts => .compound (partsRespell r parts)

def Item.respell (item : Item) : Item :=
  ⟨r.place item.start, item.kind.respell r⟩

theorem exprsRespell_eq (es : List Expr) : exprsRespell r es = es.map (·.respell r) := by
  induction es with
  | nil => rfl
  | cons e es ih => rw [exprsRespell, ih, List.map_cons]

theorem membersRespell_eq (ms : List Member) : membersRespell r ms = ms.map (·.respell r) := by
  induction ms with
  | nil => rfl
  | cons m ms ih => rw [membersRespell, ih, List.map_cons]

theorem patternsRespell_eq (ps : List Pattern) : patternsRespell r ps = ps.map (·.respell r) := by
  induction ps with
  | nil => rfl
  | cons p ps ih => rw [patternsRespell, ih, List.map_cons]

theorem propertiesRespell_eq (ps : List PatternProperty) : propertiesRespell r ps = ps.map (·.respell r) := by
  induction ps with
  | nil => rfl
  | cons p ps ih => rw [propertiesRespell, ih, List.map_cons]

theorem stmtsRespell_eq (ts : List Stmt) : stmtsRespell r ts = ts.map (·.respell r) := by
  induction ts with
  | nil => rfl
  | cons t ts ih => rw [stmtsRespell, ih, List.map_cons]

theorem declaratorsRespell_eq (ds : List Declarator) : declaratorsRespell r ds = ds.map (·.respell r) := by
  induction ds with
  | nil => rfl
  | cons d ds ih => rw [declaratorsRespell, ih, List.map_cons]

theorem partsRespell_eq (ps : List Part) : partsRespell r ps = ps.map (·.respell r) := by
  induction ps with
  | nil => rfl
  | cons p ps ih => rw [partsRespell, ih, List.map_cons]

def Node.respell : Node → Node
  | .ident id => .ident (id.respell r)
  | .expr e => .expr (e.respell r)
  | .member m => .member (m.respell r)
  | .key k => .key (k.respell r)
  | .func f => .func (f.respell r)
  | .body b => .body (b.respell r)
  | .pattern p => .pattern (p.respell r)
  | .property p => .property (p.respell r)
  | .stmt t => .stmt (t.respell r)
  | .decl d => .decl (d.respell r)
  | .declarator d => .declarator (d.respell r)
  | .part p => .part (p.respell r)

/-- The place is a call or a link that calls. -/
def Node.HasArguments (n : Node) : Prop :=
  n.IsOptionalCall ∨ ∃ callee arguments types, n = .expr (.call callee arguments types)

/-- What stands under a place is written anew along with it, arguments apart. -/
theorem Node.children_respell {r : Respelling} (hshorthand : ∀ id, r.shorthand id = .shorthand id) {n : Node}
    (hn : ¬ n.HasArguments) : (n.respell r).children = n.children.map (·.respell r) := by
  cases n with
  | ident id => rfl
  | expr e =>
    cases e with
    | call callee arguments types => exact absurd (.inr ⟨callee, arguments, types, rfl⟩) hn
    | optional link =>
      cases link with
      | call callee arguments types => exact absurd (.inl ⟨callee, arguments, types, rfl⟩) hn
      | _ => rfl
    | function start name func => cases name <;> rfl
    | _ =>
      simp [respell, children, Expr.respell, Expr.children, exprsRespell_eq, membersRespell_eq, partsRespell_eq]
  | member m =>
    cases m with
    | getter span key func =>
      cases func
      simp [respell, children, Member.respell, Func.respell, Member.children, partsRespell_eq]
    | setter span key func =>
      cases func
      simp [respell, children, Member.respell, Func.respell, Member.children, patternsRespell_eq]
    | _ => simp [respell, children, Member.respell, Member.children, hshorthand]
  | key k => cases k <;> rfl
  | func f =>
    cases f
    simp [respell, children, Func.respell, Func.children, patternsRespell_eq, partsRespell_eq, Function.comp_def]
  | body b => cases b <;> simp [respell, children, Body.respell, Body.children, stmtsRespell_eq]
  | pattern p =>
    cases p <;> simp [respell, children, Pattern.respell, Pattern.children, patternsRespell_eq,
      propertiesRespell_eq, partsRespell_eq, Function.comp_def]
  | property p =>
    cases p with
    | shorthand id default => cases default <;> rfl
    | _ => rfl
  | stmt t =>
    cases t with
    | «return» argument => cases argument <;> rfl
    | _ => simp [respell, children, Stmt.respell, Stmt.children, partsRespell_eq]
  | decl d =>
    cases d <;> simp [respell, children, Decl.respell, Decl.children, declaratorsRespell_eq, partsRespell_eq]
  | declarator d =>
    obtain ⟨span, pattern, init⟩ := d
    cases init <;> rfl
  | part p => cases p <;> rfl

theorem Node.not_hasArguments_respell {r : Respelling} {n : Node} (hn : ¬ n.HasArguments) :
    ¬ (n.respell r).HasArguments := by
  cases n with
  | expr e =>
    cases e with
    | call callee arguments types => exact absurd (.inr ⟨callee, arguments, types, rfl⟩) hn
    | optional link =>
      cases link with
      | call callee arguments types => exact absurd (.inl ⟨callee, arguments, types, rfl⟩) hn
      | optional inner => cases inner <;> simp [respell, Expr.respell, HasArguments, IsOptionalCall]
      | _ => simp [respell, Expr.respell, HasArguments, IsOptionalCall]
    | _ => simp [respell, Expr.respell, HasArguments, IsOptionalCall]
  | _ => simp [respell, HasArguments, IsOptionalCall]

namespace Expr

/-- What is found when an expression is looked through is written anew along with it. -/
theorem unwrap_respell (e : Expr) : (e.respell r).unwrap = e.unwrap.respell r := by
  fun_induction unwrap e with
  | case1 start inner ih => rw [respell, unwrap, ih]
  | case2 start inner type ih => rw [respell, unwrap, ih]
  | case3 start inner type ih => rw [respell, unwrap, ih]
  | case4 start inner type ih => rw [respell, unwrap, ih]
  | case5 start inner type ih => rw [respell, unwrap, ih]
  | case6 e h1 h2 h3 h4 h5 =>
    cases e with
    | paren start inner => exact absurd rfl (h1 start inner)
    | assertion start kind inner type =>
      cases kind with
      | asType => exact absurd rfl (h2 start inner type)
      | asConst => exact absurd rfl (h3 start inner type)
      | satisfies => exact absurd rfl (h4 start inner type)
      | nonNull => exact absurd rfl (h5 start inner type)
      | cast => rfl
      | instantiation => rfl
    | optional link => cases link <;> rfl
    | _ => rfl

theorem stringLiteral?_respell (e : Expr) : (e.respell r).stringLiteral? = e.stringLiteral? := by
  rw [stringLiteral?, stringLiteral?, unwrap_respell]
  cases e.unwrap with
  | template start head substitutions => cases substitutions <;> rfl
  | optional link => cases link <;> rfl
  | _ => rfl

theorem comparesLiteral_respell (test : Expr) : (test.respell r).comparesLiteral = test.comparesLiteral := by
  rw [comparesLiteral, comparesLiteral, unwrap_respell]
  cases test.unwrap with
  | binary op left right => simp only [respell, stringLiteral?_respell]
  | optional link => cases link <;> rfl
  | _ => rfl

theorem choices?_respell (e : Expr) : (e.respell r).choices? = e.choices? := by
  cases e with
  | paren start inner => rw [respell, choices?, choices?, inner.choices?_respell]
  | assertion start kind inner type =>
    cases kind with
    | cast => rfl
    | instantiation => rfl
    | _ => rw [respell, choices?, choices?, inner.choices?_respell]
  | conditional test yes no =>
    rw [respell, choices?, choices?, comparesLiteral_respell, stringLiteral?_respell, no.choices?_respell]
  | optional link => cases link <;> exact congrArg (Option.map ([·])) (stringLiteral?_respell r _)
  | _ => exact congrArg (Option.map ([·])) (stringLiteral?_respell r _)
termination_by sizeOf e

theorem stringUnion?_respell (e : Expr) : (e.respell r).stringUnion? = e.stringUnion? := by
  rw [stringUnion?, stringUnion?, unwrap_respell, choices?_respell]
  cases e.unwrap with
  | optional link => cases link <;> rfl
  | _ => rfl

theorem isNumber_respell (e : Expr) : (e.respell r).isNumber = e.isNumber := by
  rw [isNumber, isNumber, unwrap_respell]
  cases e.unwrap with
  | literal kind start => cases kind <;> rfl
  | optional link => cases link <;> rfl
  | _ => rfl

/-- The type of a value does not depend on its spelling. -/
theorem type_respell (e : Expr) : (e.respell r).type = e.type := by
  rw [type, type, unwrap_respell, stringUnion?_respell]
  cases e.unwrap with
  | literal kind start => cases kind <;> rfl
  | unary start op operand => simp only [respell, isNumber_respell]
  | optional link => cases link <;> rfl
  | _ => rfl

theorem func?_respell (e : Expr) : (e.respell r).func? = e.func?.map (·.respell r) := by
  rw [func?, func?, unwrap_respell]
  cases e.unwrap with
  | optional link => cases link <;> rfl
  | _ => rfl

end Expr

theorem Func.params_respell (func : Func) : (func.respell r).params = func.params.map (·.respell r) := by
  cases func
  exact patternsRespell_eq r _

theorem Func.expression?_respell (func : Func) : (func.respell r).expression? = func.expression?.map (·.respell r) := by
  obtain ⟨params, body, types⟩ := func
  cases body <;> rfl

theorem returned?_respell (ts : List Stmt) : returned? (ts.map (·.respell r)) = (returned? ts).map (·.respell r) := by
  induction ts with
  | nil => rfl
  | cons t ts ih =>
    cases t with
    | «return» value =>
      cases value with
      | none => exact ih
      | some value => rfl
    | _ => exact ih

theorem Func.returned?_respell (func : Func) : (func.respell r).returned? = func.returned?.map (·.respell r) := by
  obtain ⟨params, body, types⟩ := func
  cases body with
  | block statements =>
    rw [Func.respell, Body.respell, stmtsRespell_eq]
    exact Script.returned?_respell r statements
  | _ => rfl

theorem Key.name?_respell (key : Key) : (key.respell r).name? = key.name? := by
  cases key <;> rfl

mutual

theorem Pattern.names_respell (p : Pattern) : (p.respell r).names = p.names.map (·.respell r) := by
  cases p with
  | ident id type => rfl
  | hole => rfl
  | array start elements type => exact patternsNames_respell elements
  | object start properties type => exact propertiesNames_respell properties
  | rest start inner type => exact inner.names_respell
  | withDefault inner value => exact inner.names_respell
  | target inner => rfl

theorem patternsNames_respell (ps : List Pattern) :
    patternsNames (patternsRespell r ps) = (patternsNames ps).map (·.respell r) := by
  cases ps with
  | nil => rfl
  | cons p ps =>
    rw [patternsRespell, patternsNames, patternsNames, p.names_respell, patternsNames_respell ps, List.map_append]

theorem PatternProperty.names_respell (p : PatternProperty) : (p.respell r).names = p.names.map (·.respell r) := by
  cases p with
  | keyValue key value => exact value.names_respell
  | shorthand id default => cases default <;> rfl
  | rest start inner => exact inner.names_respell

theorem propertiesNames_respell (ps : List PatternProperty) :
    propertiesNames (propertiesRespell r ps) = (propertiesNames ps).map (·.respell r) := by
  cases ps with
  | nil => rfl
  | cons p ps =>
    rw [propertiesRespell, propertiesNames, propertiesNames, p.names_respell, propertiesNames_respell ps,
      List.map_append]

end

end ComponentDoc.Script

namespace ComponentDoc

/-- The script with its code written anew. -/
def ScriptBlock.respell (script : ScriptBlock) (r : Script.Respelling) : ScriptBlock :=
  { script with items := script.items.map (·.respell r) }

end ComponentDoc
