import ComponentDoc.Proofs.Sequence
import ComponentDoc.Script.Value

/-!
The names that an expression refers to. An expression refers to a name if an identifier of that name stands
anywhere in its tree, in functions, patterns and types too. The list of its references has each such name
once, in the order in which a reader of the tree first meets it.
-/
namespace ComponentDoc.Script

/-- A place in a syntax tree, whatever its sort. -/
inductive Node where
  | ident (id : Ident)
  | expr (e : Expr)
  | member (m : Member)
  | key (k : Key)
  | func (f : Func)
  | body (b : Body)
  | pattern (p : Pattern)
  | property (p : PatternProperty)
  | stmt (t : Stmt)
  | decl (d : Decl)
  | declarator (d : Declarator)
  | part (p : Part)

/-! What stands right under a place. The key of a member counts only if it is computed. -/

def Expr.children : Expr → List Node
  | .ident id => [.ident id]
  | .this _ => []
  | .string _ => []
  | .literal _ _ => []
  | .template _ _ substitutions => substitutions.map .expr
  | .array _ elements => elements.map .expr
  | .hole => []
  | .spread _ inner => [.expr inner]
  | .object _ members => members.map .member
  | .function _ name func => name.toList.map .ident ++ [.func func]
  | .arrow _ func => [.func func]
  | .unary _ _ operand => [.expr operand]
  | .binary _ left right => [.expr left, .expr right]
  | .assign _ target value => [.pattern target, .expr value]
  | .conditional test yes no => [.expr test, .expr yes, .expr no]
  | .call callee arguments types => .expr callee :: (arguments.map .expr ++ types.map .part)
  | .member base _ => [.expr base]
  | .index base key => [.expr base, .expr key]
  | .optional link => [.expr link]
  | .paren _ inner => [.expr inner]
  | .assertion _ _ inner type => .expr inner :: type.map .part
  | .compound _ parts => parts.map .part

def Member.children : Member → List Node
  | .keyValue _ key value => [.key key, .expr value]
  | .method _ key func => [.key key, .func func]
  | .getter _ key (.mk _ body types) => .key key :: (types.map .part ++ [.body body])
  | .setter _ key (.mk params body _) => .key key :: (params.map .pattern ++ [.body body])
  | .shorthand id => [.ident id]
  | .withDefault _ id value => [.ident id, .expr value]
  | .spread _ inner => [.expr inner]

def Key.children : Key → List Node
  | .name _ => []
  | .string _ => []
  | .number _ => []
  | .computed _ inner => [.expr inner]

def Func.children : Func → List Node
  | .mk params body types => params.map .pattern ++ .body body :: types.map .part

def Body.children : Body → List Node
  | .block statements => statements.map .stmt
  | .expr value => [.expr value]
  | .absent => []

def Pattern.children : Pattern → List Node
  | .ident id type => .ident id :: type.map .part
  | .hole => []
  | .array _ elements type => elements.map .pattern ++ type.map .part
  | .object _ properties type => properties.map .property ++ type.map .part
  | .rest _ inner type => .pattern inner :: type.map .part
  | .withDefault inner value => [.pattern inner, .expr value]
  | .target inner => [.expr inner]

def PatternProperty.children : PatternProperty → List Node
  | .keyValue key value => [.key key, .pattern value]
  | .shorthand id default => .ident id :: default.toList.map .expr
  | .rest _ inner => [.pattern inner]

def Stmt.children : Stmt → List Node
  | .expr _ value => [.expr value]
  | .declaration decl => [.decl decl]
  | .labeled label body => [.ident label, .stmt body]
  | .return argument => argument.toList.map .expr
  | .empty => []
  | .compound parts => parts.map .part

def Decl.children : Decl → List Node
  | .vars _ _ declarators => declarators.map .declarator
  | .function _ name func => [.ident name, .func func]
  | .classDecl name parts => .ident name :: parts.map .part
  | .compound parts => parts.map .part

def Declarator.children : Declarator → List Node
  | .mk _ pattern init => .pattern pattern :: init.toList.map .expr

def Part.children : Part → List Node
  | .ident id => [.ident id]
  | .expr e => [.expr e]
  | .pattern p => [.pattern p]
  | .func f => [.func f]
  | .stmt t => [.stmt t]

def Node.children : Node → List Node
  | .ident _ => []
  | .expr e => e.children
  | .member m => m.children
  | .key k => k.children
  | .func f => f.children
  | .body b => b.children
  | .pattern p => p.children
  | .property p => p.children
  | .stmt t => t.children
  | .decl d => d.children
  | .declarator d => d.children
  | .part p => p.children

/-- A place stands somewhere under another one, or is that one. -/
inductive Node.Within (inner : Node) : Node → Prop
  | here : Node.Within inner inner
  | child {outer c : Node} (hc : c ∈ outer.children) (h : Node.Within inner c) : Node.Within inner outer

/-- What a reader of a place meets. -/
def Node.visits : Node → Option Nat → List Visit
  | .ident id, _ => [.ident id]
  | .expr e, s => e.visits s
  | .member m, s => m.visits s
  | .key k, s => k.visits s
  | .func f, s => f.visits s
  | .body b, s => b.visits s
  | .pattern p, s => p.visits s
  | .property p, s => p.visits s
  | .stmt t, s => t.visits s
  | .decl d, s => d.visits s
  | .declarator d, s => d.visits s
  | .part p, s => p.visits s

/-- The statement that the children of a place are read as part of. -/
def Node.statement : Node → Option Nat → Option Nat
  | .stmt (.expr start _), _ => some start
  | _, s => s

theorem exprsVisits_eq (es : List Expr) (s : Option Nat) : exprsVisits es s = es.flatMap (·.visits s) := by
  induction es with
  | nil => rfl
  | cons e es ih => rw [exprsVisits, ih, List.flatMap_cons]

theorem membersVisits_eq (ms : List Member) (s : Option Nat) :
    membersVisits ms s = ms.flatMap (·.visits s) := by
  induction ms with
  | nil => rfl
  | cons m ms ih => rw [membersVisits, ih, List.flatMap_cons]

theorem patternsVisits_eq (ps : List Pattern) (s : Option Nat) :
    patternsVisits ps s = ps.flatMap (·.visits s) := by
  induction ps with
  | nil => rfl
  | cons p ps ih => rw [patternsVisits, ih, List.flatMap_cons]

theorem propertiesVisits_eq (ps : List PatternProperty) (s : Option Nat) :
    propertiesVisits ps s = ps.flatMap (·.visits s) := by
  induction ps with
  | nil => rfl
  | cons p ps ih => rw [propertiesVisits, ih, List.flatMap_cons]

theorem stmtsVisits_eq (ts : List Stmt) (s : Option Nat) : stmtsVisits ts s = ts.flatMap (·.visits s) := by
  induction ts with
  | nil => rfl
  | cons t ts ih => rw [stmtsVisits, ih, List.flatMap_cons]

theorem declaratorsVisits_eq (ds : List Declarator) (s : Option Nat) :
    declaratorsVisits ds s = ds.flatMap (·.visits s) := by
  induction ds with
  | nil => rfl
  | cons d ds ih => rw [declaratorsVisits, ih, List.flatMap_cons]

theorem partsVisits_eq (ps : List Part) (s : Option Nat) : partsVisits ps s = ps.flatMap (·.visits s) := by
  induction ps with
  | nil => rfl
  | cons p ps ih => rw [partsVisits, ih, List.flatMap_cons]

namespace Node

/-- What a place itself is met as. -/
def own : Node → Option Nat → List Visit
  | .ident id, _ => [.ident id]
  | .expr (.call callee arguments _), s => [.call s callee arguments]
  | _, _ => []

/-- The place is a link that calls, in a chain that may be cut short. -/
def IsOptionalCall (n : Node) : Prop :=
  ∃ callee arguments types, n = .expr (.optional (.call callee arguments types))

/-- One step into the tree: a reader meets a place, and then what stands under it. -/
theorem visits_eq {n : Node} (hn : ¬ n.IsOptionalCall) (s : Option Nat) :
    n.visits s = n.own s ++ n.children.flatMap (·.visits (n.statement s)) := by
  cases n with
  | ident id => rfl
  | expr e =>
    cases e with
    | optional link =>
      cases link with
      | call callee arguments types => exact absurd ⟨callee, arguments, types, rfl⟩ hn
      | _ => simp [visits, own, children, Expr.children, statement, Expr.visits]
    | function start name func =>
      cases name <;> simp [visits, own, children, Expr.children, statement, Expr.visits]
    | _ =>
      simp [visits, own, children, Expr.children, statement, Expr.visits, exprsVisits_eq, membersVisits_eq,
        partsVisits_eq, List.flatMap_map]
  | member m =>
    cases m with
    | getter span key func =>
      cases func
      simp [visits, own, children, Member.children, statement, Member.visits, partsVisits_eq, List.flatMap_map]
    | setter span key func =>
      cases func
      simp [visits, own, children, Member.children, statement, Member.visits, patternsVisits_eq,
        List.flatMap_map]
    | _ => simp [visits, own, children, Member.children, statement, Member.visits]
  | key k => cases k <;> simp [visits, own, children, Key.children, statement, Key.visits]
  | func f =>
    cases f
    simp [visits, own, children, Func.children, statement, Func.visits, patternsVisits_eq, partsVisits_eq,
      List.flatMap_map]
  | body b =>
    cases b <;> simp [visits, own, children, Body.children, statement, Body.visits, stmtsVisits_eq,
      List.flatMap_map]
  | pattern p =>
    cases p <;> simp [visits, own, children, Pattern.children, statement, Pattern.visits, patternsVisits_eq,
      propertiesVisits_eq, partsVisits_eq, List.flatMap_map]
  | property p =>
    cases p with
    | shorthand id default =>
      cases default <;> simp [visits, own, children, PatternProperty.children, statement, PatternProperty.visits]
    | _ => simp [visits, own, children, PatternProperty.children, statement, PatternProperty.visits]
  | stmt t =>
    cases t with
    | «return» argument =>
      cases argument <;> simp [visits, own, children, Stmt.children, statement, Stmt.visits]
    | _ => simp [visits, own, children, Stmt.children, statement, Stmt.visits, partsVisits_eq, List.flatMap_map]
  | decl d =>
    cases d <;> simp [visits, own, children, Decl.children, statement, Decl.visits, declaratorsVisits_eq,
      partsVisits_eq, List.flatMap_map]
  | declarator d =>
    obtain ⟨span, pattern, init⟩ := d
    cases init <;> simp [visits, own, children, Declarator.children, statement, Declarator.visits]
  | part p => cases p <;> simp [visits, own, children, Part.children, statement, Part.visits]

/-- A link that calls is read like its callee and arguments; the call itself is not met. -/
theorem visits_optional_call (callee : Expr) (arguments : List Expr) (types : List Part) (s : Option Nat) :
    (Node.expr (.optional (.call callee arguments types))).visits s =
      (Node.expr (.call callee arguments types)).children.flatMap (·.visits s) := by
  simp [visits, children, Expr.children, Expr.visits, exprsVisits_eq, partsVisits_eq, List.flatMap_map]

theorem ident_mem_own_iff {n : Node} {s : Option Nat} {id : Ident} : .ident id ∈ n.own s ↔ n = .ident id := by
  cases n with
  | ident id' => simp [own, eq_comm]
  | expr e => cases e <;> simp [own]
  | _ => simp [own]

/-- A reader meets an identifier at its own place, or under a place that it is read in. -/
theorem mem_visits_iff (n : Node) (s : Option Nat) (id : Ident) : .ident id ∈ n.visits s ↔
    n = .ident id ∨ ∃ c ∈ n.children, .ident id ∈ c.visits (n.statement s) := by
  by_cases hn : n.IsOptionalCall
  · obtain ⟨callee, arguments, types, rfl⟩ := hn
    have hcall : ¬ (Node.expr (.call callee arguments types)).IsOptionalCall := by simp [IsOptionalCall]
    have hown : .ident id ∉ (Node.expr (.call callee arguments types)).own s := by simp [ident_mem_own_iff]
    have hlink : (Node.expr (.optional (.call callee arguments types))).children =
        [.expr (.call callee arguments types)] := rfl
    rw [visits_optional_call, hlink]
    simp only [List.mem_singleton, exists_eq_left, statement, visits_eq hcall, List.mem_append, hown, false_or,
      reduceCtorEq]
  · rw [visits_eq hn, List.mem_append, ident_mem_own_iff, List.mem_flatMap]

theorem sizeOf_le_of_mem_map {α : Type} [SizeOf α] {f : α → Node} (hf : ∀ a, sizeOf (f a) = 1 + sizeOf a)
    {xs : List α} {c : Node} (h : c ∈ xs.map f) : sizeOf c ≤ sizeOf xs := by
  obtain ⟨a, ha, rfl⟩ := List.mem_map.mp h
  have hlt := List.sizeOf_lt_of_mem ha
  rw [hf]
  omega

/-- What stands right under a place is smaller. -/
theorem sizeOf_lt_of_mem_children {n c : Node} (h : c ∈ n.children) : sizeOf c < sizeOf n := by
  have hexprs {es : List Expr} : c ∈ es.map .expr → _ := sizeOf_le_of_mem_map fun _ => rfl
  have hmembers {ms : List Member} : c ∈ ms.map .member → _ := sizeOf_le_of_mem_map fun _ => rfl
  have hpatterns {ps : List Pattern} : c ∈ ps.map .pattern → _ := sizeOf_le_of_mem_map fun _ => rfl
  have hproperties {ps : List PatternProperty} : c ∈ ps.map .property → _ :=
    sizeOf_le_of_mem_map fun _ => rfl
  have hstmts {ts : List Stmt} : c ∈ ts.map .stmt → _ := sizeOf_le_of_mem_map fun _ => rfl
  have hdeclarators {ds : List Declarator} : c ∈ ds.map .declarator → _ :=
    sizeOf_le_of_mem_map fun _ => rfl
  have hparts {ps : List Part} : c ∈ ps.map .part → _ := sizeOf_le_of_mem_map fun _ => rfl
  cases n with
  | ident id => cases h
  | expr e =>
    cases e with
    | function start name func => cases name <;> simp [children, Expr.children] at h <;> grind
    | _ => grind [children, Expr.children]
  | member m =>
    cases m with
    | getter span key func => cases func; grind [children, Member.children]
    | setter span key func => cases func; grind [children, Member.children]
    | _ => grind [children, Member.children]
  | key k => cases k <;> grind [children, Key.children]
  | func f => cases f; grind [children, Func.children]
  | body b => cases b <;> grind [children, Body.children]
  | pattern p => cases p <;> grind [children, Pattern.children]
  | property p =>
    cases p with
    | shorthand id default => cases default <;> simp [children, PatternProperty.children] at h <;> grind
    | _ => grind [children, PatternProperty.children]
  | stmt t =>
    cases t with
    | «return» argument => cases argument <;> grind [children, Stmt.children]
    | _ => grind [children, Stmt.children]
  | decl d => cases d <;> grind [children, Decl.children]
  | declarator d =>
    obtain ⟨span, pattern, init⟩ := d
    cases init <;> simp [children, Declarator.children] at h <;> grind
  | part p => cases p <;> grind [children, Part.children]

/-- A reader of a place meets just the identifiers that stand in it. -/
theorem mem_visits_iff_within {n : Node} {s : Option Nat} {id : Ident} :
    .ident id ∈ n.visits s ↔ Within (.ident id) n := by
  constructor
  · intro h
    -- By induction on the size of the place, as what stands under it may be of any sort.
    induction hsize : sizeOf n using Nat.strong_induction_on generalizing n s with
    | _ size ih =>
      rcases (mem_visits_iff n s id).mp h with rfl | ⟨c, hc, hm⟩
      · exact .here
      · exact .child hc (ih _ (hsize ▸ sizeOf_lt_of_mem_children hc) hm rfl)
  · intro h
    induction h generalizing s with
    | here => exact List.mem_singleton_self _
    | @child outer c hc _ ih => exact (mem_visits_iff outer s id).mpr (.inr ⟨c, hc, ih⟩)

end Node

/-- The name that a reader meets. -/
def Visit.name? : Visit → Option String
  | .ident id => some id.name
  | .call _ _ _ => none

/-- The names of the identifiers in an expression, in the order of reading and as often as they stand there. -/
def Expr.names (e : Expr) : List String :=
  (e.visits none).filterMap Visit.name?

/-- An identifier of the name stands in the expression. -/
def Expr.RefersTo (e : Expr) (name : String) : Prop :=
  ∃ id : Ident, id.name = name ∧ Node.Within (.ident id) (.expr e)

theorem Expr.mem_names_iff {e : Expr} {name : String} : name ∈ e.names ↔ e.RefersTo name := by
  rw [names, List.mem_filterMap]
  constructor
  · rintro ⟨visit, hm, hn⟩
    cases visit with
    | ident id => exact ⟨id, Option.some.inj hn, Node.mem_visits_iff_within.mp hm⟩
    | call statement callee arguments => cases hn
  · rintro ⟨id, rfl, h⟩
    have hm : .ident id ∈ (Node.expr e).visits none := Node.mem_visits_iff_within.mpr h
    exact ⟨.ident id, hm, rfl⟩

theorem Expr.references_eq (e : Expr) : e.references = e.names.eraseDups := by
  refine congrArg List.eraseDups (congrArg (List.filterMap · _) (funext fun visit => ?_))
  cases visit <;> rfl

/-- Names listed by where an expression first refers to them: those that count, each once. -/
structure ListsReferences (e : Expr) (counts : String → Prop) (names : List String) : Prop where
  mem_iff : ∀ name, name ∈ names ↔ e.RefersTo name ∧ counts name
  once : names.Nodup
  ordered : names.Pairwise fun m n => e.names.idxOf m < e.names.idxOf n

theorem Expr.listsReferences (e : Expr) (p : String → Bool) :
    ListsReferences e (fun name => p name = true) (e.references.filter p) := by
  rw [references_eq]
  refine ⟨fun name => ?_, (nodup_eraseDups _).filter p, (pairwise_idxOf_eraseDups _).filter p⟩
  rw [List.mem_filter, List.mem_eraseDups, mem_names_iff]

end ComponentDoc.Script
