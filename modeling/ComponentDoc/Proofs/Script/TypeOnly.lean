import ComponentDoc.Proofs.Script.Cascade

namespace ComponentDoc.Script

section

variable (gone : Assertion → Bool)

mutual

/-- The expression without parentheses and without assertions of some kinds, at every depth. -/
def Expr.without : Expr → Expr
  | .ident id => .ident id
  | .this start => .this start
  | .string lit => .string lit
  | .literal kind start => .literal kind start
  | .template start head substitutions => .template start head (exprsWithout substitutions)
  | .array start elements => .array start (exprsWithout elements)
  | .hole => .hole
  | .spread start inner => .spread start inner.without
  | .object start members => .object start (membersWithout members)
  | .function start name func => .function start name func.without
  | .arrow start func => .arrow start func.without
  | .unary start op operand => .unary start op operand.without
  | .binary op left right => .binary op left.without right.without
  | .assign op target value => .assign op target.without value.without
  | .conditional test yes no => .conditional test.without yes.without no.without
  | .call callee arguments types => .call callee.without (exprsWithout arguments) (partsWithout types)
  | .member object property => .member object.without property
  | .index object key => .index object.without key.without
  | .optional link => .optional link.without
  | .paren _ inner => inner.without
  | .assertion start kind inner type =>
    if gone kind then inner.without else .assertion start kind inner.without (partsWithout type)
  | .compound start parts => .compound start (partsWithout parts)

def exprsWithout : List Expr → List Expr
  | [] => []
  | e :: es => e.without :: exprsWithout es

def Member.without : Member → Member
  | .keyValue span key value => .keyValue span key.without value.without
  | .method span key func => .method span key.without func.without
  | .getter span key func => .getter span key.without func.without
  | .setter span key func => .setter span key.without func.without
  | .shorthand id => .shorthand id
  | .withDefault span id value => .withDefault span id value.without
  | .spread span inner => .spread span inner.without

def membersWithout : List Member → List Member
  | [] => []
  | m :: ms => m.without :: membersWithout ms

def Key.without : Key → Key
  | .name id => .name id
  | .string lit => .string lit
  | .number start => .number start
  | .computed start inner => .computed start inner.without

def Func.without : Func → Func
  | .mk params body types => .mk (patternsWithout params) body.without (partsWithout types)

def Body.without : Body → Body
  | .block statements => .block (stmtsWithout statements)
  | .expr value => .expr value.without
  | .absent => .absent

def Pattern.without : Pattern → Pattern
  | .ident id type => .ident id (partsWithout type)
  | .hole => .hole
  | .array start elements type => .array start (patternsWithout elements) (partsWithout type)
  | .object start properties type => .object start (propertiesWithout properties) (partsWithout type)
  | .rest start inner type => .rest start inner.without (partsWithout type)
  | .withDefault inner value => .withDefault inner.without value.without
  | .target inner => .target inner.without

def patternsWithout : List Pattern → List Pattern
  | [] => []
  | p :: ps => p.without :: patternsWithout ps

def PatternProperty.without : PatternProperty → PatternProperty
  | .keyValue key value => .keyValue key.without value.without
  | .shorthand id none => .shorthand id none
  | .shorthand id (some value) => .shorthand id (some value.without)
  | .rest start inner => .rest start inner.without

def propertiesWithout : List PatternProperty → List PatternProperty
  | [] => []
  | p :: ps => p.without :: propertiesWithout ps

def Stmt.without : Stmt → Stmt
  | .expr start value => .expr start value.without
  | .declaration decl => .declaration decl.without
  | .labeled label body => .labeled label body.without
  | .return none => .return none
  | .return (some value) => .return (some value.without)
  | .empty => .empty
  | .compound parts => .compound (partsWithout parts)

def stmtsWithout : List Stmt → List Stmt
  | [] => []
  | t :: ts => t.without :: stmtsWithout ts

def Decl.without : Decl → Decl
  | .vars start constant declarators => .vars start constant (declaratorsWithout declarators)
  | .function start name func => .function start name func.without
  | .classDecl name parts => .classDecl name (partsWithout parts)
  | .compound parts => .compound (partsWithout parts)

def Declarator.without : Declarator → Declarator
  | .mk span pattern none => .mk span pattern.without none
  | .mk span pattern (some value) => .mk span pattern.without (some value.without)

def declaratorsWithout : List Declarator → List Declarator
  | [] => []
  | d :: ds => d.without :: declaratorsWithout ds

def Part.without : Part → Part
  | .ident id => .ident id
  | .expr value => .expr value.without
  | .pattern pattern => .pattern pattern.without
  | .func func => .func func.without
  | .stmt statement => .stmt statement.without

def partsWithout : List Part → List Part
  | [] => []
  | p :: ps => p.without :: partsWithout ps

end

end

/-- The expression without parentheses and without anything that is there for types alone: `x as T`,
`x as const`, `x satisfies T`, `x!` and `<T>x`. -/
def Expr.bare (e : Expr) : Expr :=
  e.without fun kind => kind != .instantiation

theorem Wraps.without {core e : Expr} (h : Wraps core e) (gone : Assertion → Bool) :
    Wraps (core.without gone) (e.without gone) := by
  induction h with
  | bare => exact .bare
  | paren start _ ih => exact ih
  | @assertion e kind start type hkind _ ih =>
    rw [Expr.without]
    split_ifs
    · exact ih
    · exact .assertion start _ hkind ih

/-- The expression is cast by a type in angle brackets. -/
def IsCast (e : Expr) : Prop :=
  ∃ start inner type, Wraps (.assertion start .cast inner type) e

/-- The test of a conditional is cast, or it compares with no string, and a side of it is cast. -/
inductive TestReadsCast (test : Expr) : Prop
  | whole (h : IsCast test)
  | side {left right : Expr} (h : Wraps (.binary "===" left right) test) (hleft : ∀ value, ¬ IsText left value)
      (hright : ∀ value, ¬ IsText right value) (hcast : IsCast left ∨ IsCast right)

/-- A cast stands where the type of the expression is read: around it, around the operand of a sign, or around
what a conditional compares with or chooses. -/
inductive ReadsCast : Expr → Prop
  | here {e : Expr} (h : IsCast e) : ReadsCast e
  | operand {e operand : Expr} {start : Nat} {op : String} (h : Wraps (.unary start op operand) e)
      (hop : op = "-" ∨ op = "+") (hoperand : IsCast operand) : ReadsCast e
  | test {e test yes no : Expr} (h : Wraps (.conditional test yes no) e) (htest : TestReadsCast test) :
      ReadsCast e
  | yes {e test yes no : Expr} (h : Wraps (.conditional test yes no) e) (hyes : IsCast yes) : ReadsCast e
  | no {e test yes no : Expr} (h : Wraps (.conditional test yes no) e) (hno : ReadsCast no) : ReadsCast e

theorem IsCast.unwrap {e : Expr} (h : IsCast e) :
    ∃ start inner type, e.unwrap = .assertion start .cast inner type := by
  obtain ⟨start, inner, type, h⟩ := h
  exact ⟨start, inner, type, h.eq_of_unwrap_eq rfl⟩

theorem ReadsCast.stringLiteral?_eq_none {e : Expr} (h : ReadsCast e) : e.stringLiteral? = none := by
  cases h with
  | here h =>
    obtain ⟨start, inner, type, he⟩ := h.unwrap
    rw [Expr.stringLiteral?, he]
  | operand h hop hoperand => rw [Expr.stringLiteral?, h.eq_of_unwrap_eq rfl]
  | test h htest => rw [Expr.stringLiteral?, h.eq_of_unwrap_eq rfl]
  | yes h hyes => rw [Expr.stringLiteral?, h.eq_of_unwrap_eq rfl]
  | no h hno => rw [Expr.stringLiteral?, h.eq_of_unwrap_eq rfl]

theorem IsText.not_readsCast {e : Expr} {value : String} (h : IsText e value) : ¬ ReadsCast e := by
  intro hreads
  have hvalue := Expr.stringLiteral?_eq_some_iff.mpr h
  rw [hreads.stringLiteral?_eq_none] at hvalue
  cases hvalue

theorem IsText.not_isCast {e : Expr} {value : String} (h : IsText e value) : ¬ IsCast e :=
  fun hcast => h.not_readsCast (.here hcast)

theorem ComparesText.not_testReadsCast {test : Expr} (h : ComparesText test) : ¬ TestReadsCast test := by
  obtain ⟨left, right, hwraps, hside⟩ := h
  rintro (⟨start, inner, type, hcast⟩ | ⟨hwraps', hleft, hright, _⟩)
  · cases hwraps.core_eq hcast rfl rfl
  · cases hwraps.core_eq hwraps' rfl rfl
    rcases hside with ⟨value, hvalue⟩ | ⟨value, hvalue⟩
    · exact hleft value hvalue
    · exact hright value hvalue

theorem readsCast_conditional_iff {e test yes no : Expr} (h : Wraps (.conditional test yes no) e) :
    ReadsCast e ↔ TestReadsCast test ∨ IsCast yes ∨ ReadsCast no := by
  constructor
  · intro hreads
    cases hreads with
    | here hcast =>
      obtain ⟨start, inner, type, hcast⟩ := hcast
      cases h.core_eq hcast rfl rfl
    | operand h' hop hoperand => cases h.core_eq h' rfl rfl
    | test h' htest =>
      cases h.core_eq h' rfl rfl
      exact .inl htest
    | yes h' hyes =>
      cases h.core_eq h' rfl rfl
      exact .inr (.inl hyes)
    | no h' hno =>
      cases h.core_eq h' rfl rfl
      exact .inr (.inr hno)
  · rintro (htest | hyes | hno)
    · exact .test h htest
    · exact .yes h hyes
    · exact .no h hno

/-- A cascade is read as a whole. -/
theorem Cascade.not_readsCast {e : Expr} {values : List String} (h : Cascade e values) : ¬ ReadsCast e := by
  induction h with
  | last h htest hyes hno =>
    rw [readsCast_conditional_iff h]
    rintro (hreads | hreads | hreads)
    · exact htest.not_testReadsCast hreads
    · exact hyes.not_isCast hreads
    · exact hno.not_readsCast hreads
  | more h htest hyes hno ih =>
    rw [readsCast_conditional_iff h]
    rintro (hreads | hreads | hreads)
    · exact htest.not_testReadsCast hreads
    · exact hyes.not_isCast hreads
    · exact ih hreads

theorem ReadsCast.stringUnion?_eq_none {e : Expr} (h : ReadsCast e) : e.stringUnion? = none :=
  Expr.stringUnion?_eq_none fun _ hcascade => hcascade.not_readsCast h

theorem IsCast.isNumber_eq_false {e : Expr} (h : IsCast e) : e.isNumber = false := by
  obtain ⟨start, inner, type, he⟩ := h.unwrap
  rw [Expr.isNumber, he]

/-- Where a cast is in the way, the type is not known. -/
theorem ReadsCast.type_eq_any {e : Expr} (h : ReadsCast e) : e.type = .any := by
  have hunion := h.stringUnion?_eq_none
  cases h with
  | here h =>
    obtain ⟨start, inner, type, he⟩ := h.unwrap
    rw [Expr.type, he]
  | operand h hop hoperand =>
    rw [Expr.type, h.eq_of_unwrap_eq rfl]
    simp [hoperand.isNumber_eq_false]
  | test h htest => rw [Expr.type_of_conditional (h.eq_of_unwrap_eq rfl), hunion, Option.getD_none]
  | yes h hyes => rw [Expr.type_of_conditional (h.eq_of_unwrap_eq rfl), hunion, Option.getD_none]
  | no h hno => rw [Expr.type_of_conditional (h.eq_of_unwrap_eq rfl), hunion, Option.getD_none]

namespace Expr

theorem unwrap_ne_paren (e : Expr) (start : Nat) (inner : Expr) : e.unwrap ≠ .paren start inner := by
  intro h
  have hself : inner.unwrap = .paren start inner := by
    have hcore := e.wraps_unwrap.unwrap_eq
    rw [h] at hcore
    exact hcore.symm
  have hle := (wraps_of_unwrap_eq hself).sizeOf_le
  simp at hle

/-- An assertion that is left when an expression has been looked through is not one of those. -/
theorem not_transparent_of_unwrap_eq {e inner : Expr} {start : Nat} {kind : Assertion} {type : List Part}
    (h : e.unwrap = .assertion start kind inner type) : kind ∉ Assertion.transparent := by
  intro hkind
  have hself : inner.unwrap = .assertion start kind inner type := by
    have hcore := e.wraps_unwrap.unwrap_eq
    rw [h, unwrap_assertion hkind] at hcore
    exact hcore.symm
  have hle := (wraps_of_unwrap_eq hself).sizeOf_le
  simp at hle
  omega

theorem kind_of_unwrap_eq_assertion {e inner : Expr} {start : Nat} {kind : Assertion} {type : List Part}
    (h : e.unwrap = .assertion start kind inner type) : kind = .cast ∨ kind = .instantiation := by
  have hkind := not_transparent_of_unwrap_eq h
  cases kind with
  | cast => exact .inl rfl
  | instantiation => exact .inr rfl
  | _ => exact absurd (by decide) hkind

variable {gone : Assertion → Bool} (hinst : gone .instantiation = false)
include hinst

/-- An assertion that is not looked through stays, unless it is a cast that is removed. -/
theorem kept_of_unwrap_eq_assertion {e inner : Expr} {start : Nat} {kind : Assertion} {type : List Part}
    (h : gone .cast = true → ¬ IsCast e) (hcore : e.unwrap = .assertion start kind inner type) :
    gone kind = false := by
  rcases kind_of_unwrap_eq_assertion hcore with rfl | rfl
  · by_contra hcast
    exact h (by simpa using hcast) ⟨start, inner, type, wraps_of_unwrap_eq hcore⟩
  · exact hinst

/-- Looking through an expression and removing from it can change places, unless a cast is removed. -/
theorem unwrap_without {e : Expr} (h : gone .cast = true → ¬ IsCast e) :
    (e.without gone).unwrap = e.unwrap.without gone := by
  rw [(e.wraps_unwrap.without gone).unwrap_eq]
  cases hcore : e.unwrap with
  | paren start inner => exact absurd hcore (e.unwrap_ne_paren start inner)
  | assertion start kind inner type =>
    have hkept := kept_of_unwrap_eq_assertion hinst h hcore
    rcases kind_of_unwrap_eq_assertion hcore with rfl | rfl <;> simp [without, hkept, unwrap]
  | _ => rfl

theorem stringLiteral?_without {e : Expr} (h : gone .cast = true → ¬ IsCast e) :
    (e.without gone).stringLiteral? = e.stringLiteral? := by
  rw [stringLiteral?, stringLiteral?, unwrap_without hinst h]
  cases hcore : e.unwrap with
  | paren start inner => exact absurd hcore (e.unwrap_ne_paren start inner)
  | assertion start kind inner type => simp [without, kept_of_unwrap_eq_assertion hinst h hcore]
  | template start head substitutions => cases substitutions <;> rfl
  | _ => rfl

theorem isNumber_without {e : Expr} (h : gone .cast = true → ¬ IsCast e) :
    (e.without gone).isNumber = e.isNumber := by
  rw [isNumber, isNumber, unwrap_without hinst h]
  cases hcore : e.unwrap with
  | paren start inner => exact absurd hcore (e.unwrap_ne_paren start inner)
  | assertion start kind inner type => simp [without, kept_of_unwrap_eq_assertion hinst h hcore]
  | literal kind start => cases kind <;> rfl
  | _ => rfl

theorem isText_without {e : Expr} {value : String} (h : IsText e value) : IsText (e.without gone) value := by
  rw [← stringLiteral?_eq_some_iff, stringLiteral?_without hinst fun _ => h.not_isCast,
    stringLiteral?_eq_some_iff]
  exact h

theorem comparesText_without_iff {test : Expr} (h : gone .cast = true → ¬ TestReadsCast test) :
    ComparesText (test.without gone) ↔ ComparesText test := by
  constructor
  · rintro ⟨left', right', hwraps, hside⟩
    have htest : gone .cast = true → ¬ IsCast test := fun hg hcast => h hg (.whole hcast)
    have hcore := hwraps.eq_of_unwrap_eq rfl
    rw [unwrap_without hinst htest] at hcore
    cases hunwrap : test.unwrap with
    | binary op left right =>
      rw [hunwrap] at hcore
      cases hcore
      have hbinary : Wraps (.binary "===" left right) test := wraps_of_unwrap_eq hunwrap
      refine ⟨left, right, hbinary, ?_⟩
      -- If neither side were a string, no side would be cast, and both would be as they were.
      by_contra hnone
      simp only [not_or, not_exists] at hnone
      have hcast : gone .cast = true → ¬ (IsCast left ∨ IsCast right) :=
        fun hg hcast => h hg (.side hbinary hnone.1 hnone.2 hcast)
      simp only [← stringLiteral?_eq_some_iff,
        stringLiteral?_without hinst fun hg hleft => hcast hg (.inl hleft),
        stringLiteral?_without hinst fun hg hright => hcast hg (.inr hright)] at hside hnone
      rcases hside with ⟨value, hvalue⟩ | ⟨value, hvalue⟩
      · exact hnone.1 value hvalue
      · exact hnone.2 value hvalue
    | paren start inner => exact absurd hunwrap (test.unwrap_ne_paren start inner)
    | assertion start kind inner type =>
      rw [hunwrap, without, kept_of_unwrap_eq_assertion hinst htest hunwrap] at hcore
      cases hcore
    | _ =>
      rw [hunwrap] at hcore
      cases hcore
  · rintro ⟨left, right, hwraps, hside⟩
    refine ⟨_, _, hwraps.without gone, ?_⟩
    rcases hside with ⟨value, hvalue⟩ | ⟨value, hvalue⟩
    · exact .inl ⟨value, isText_without hinst hvalue⟩
    · exact .inr ⟨value, isText_without hinst hvalue⟩

theorem choices?_without {e : Expr} (h : gone .cast = true → ¬ ReadsCast e) :
    (e.without gone).choices? = e.choices? := by
  have hself : gone .cast = true → ¬ IsCast e := fun hg hcast => h hg (.here hcast)
  rw [(e.wraps_unwrap.without gone).choices?_eq, e.wraps_unwrap.choices?_eq]
  cases hcore : e.unwrap with
  | conditional test yes no =>
    have hwraps : Wraps (.conditional test yes no) e := wraps_of_unwrap_eq hcore
    have hparts : gone .cast = true → ¬ (TestReadsCast test ∨ IsCast yes ∨ ReadsCast no) := by
      rwa [readsCast_conditional_iff hwraps] at h
    have htest : (test.without gone).comparesLiteral = test.comparesLiteral := by
      rw [Bool.eq_iff_iff, comparesLiteral_iff, comparesLiteral_iff]
      exact comparesText_without_iff hinst fun hg htest => hparts hg (.inl htest)
    have hyes := stringLiteral?_without hinst fun hg hyes => hparts hg (.inr (.inl hyes))
    have hno := choices?_without fun hg hno => hparts hg (.inr (.inr hno))
    rw [without, choices?, choices?, htest, hyes, hno]
  | paren start inner => exact absurd hcore (e.unwrap_ne_paren start inner)
  | assertion start kind inner type =>
    have hkept := kept_of_unwrap_eq_assertion hinst hself hcore
    rcases kind_of_unwrap_eq_assertion hcore with rfl | rfl <;>
      simp [without, hkept, choices?, stringLiteral?, unwrap]
  | template start head substitutions => cases substitutions <;> rfl
  | _ => rfl
termination_by sizeOf e
decreasing_by
  have hle := (Expr.wraps_of_unwrap_eq hcore).sizeOf_le
  simp at hle
  omega

theorem stringUnion?_without {e : Expr} (h : gone .cast = true → ¬ ReadsCast e) :
    (e.without gone).stringUnion? = e.stringUnion? := by
  have hself : gone .cast = true → ¬ IsCast e := fun hg hcast => h hg (.here hcast)
  rw [stringUnion?, stringUnion?, unwrap_without hinst hself, choices?_without hinst h]
  cases hcore : e.unwrap with
  | paren start inner => exact absurd hcore (e.unwrap_ne_paren start inner)
  | assertion start kind inner type => simp [without, kept_of_unwrap_eq_assertion hinst hself hcore]
  | _ => rfl

/-- The type stays if no cast that is removed stands where it is read. -/
theorem type_without {e : Expr} (h : gone .cast = true → ¬ ReadsCast e) :
    (e.without gone).type = e.type := by
  have hself : gone .cast = true → ¬ IsCast e := fun hg hcast => h hg (.here hcast)
  rw [type, type, unwrap_without hinst hself, stringUnion?_without hinst h]
  cases hcore : e.unwrap with
  | unary start op operand =>
    change (if _ then _ else _) = if _ then _ else _
    by_cases hop : op = "-" ∨ op = "+"
    · have hwraps : Wraps (.unary start op operand) e := wraps_of_unwrap_eq hcore
      rw [isNumber_without hinst fun hg hcast => h hg (.operand hwraps hop hcast)]
    · simp only [not_or] at hop
      simp [hop]
  | paren start inner => exact absurd hcore (e.unwrap_ne_paren start inner)
  | assertion start kind inner type => simp [without, kept_of_unwrap_eq_assertion hinst hself hcore]
  | literal kind start => cases kind <;> rfl
  | _ => rfl

end Expr

/-- Without its parentheses and all that is there for types alone, an expression has the same type just when
that type is not known, or no cast stands where it is read; likewise for unions. Any of the other assertions
can be removed and the type stays, together with the parentheses and at every depth. -/
theorem Expr.type_bare_iff (e : Expr) :
    (e.bare.type = e.type ↔ e.bare.type = .any ∨ ¬ ReadsCast e) ∧
    (e.bare.stringUnion? = e.stringUnion? ↔ e.bare.stringUnion? = none ∨ ¬ ReadsCast e) ∧
    ∀ gone : Assertion → Bool, gone .cast = false → gone .instantiation = false →
      (e.without gone).type = e.type ∧ (e.without gone).stringUnion? = e.stringUnion? := by
  refine ⟨?_, ?_, ?_⟩
  · by_cases hreads : ReadsCast e
    · rw [hreads.type_eq_any]
      simp [hreads]
    · have hkept : e.bare.type = e.type := type_without rfl fun _ => hreads
      exact iff_of_true hkept (.inr hreads)
  · by_cases hreads : ReadsCast e
    · rw [hreads.stringUnion?_eq_none]
      simp [hreads]
    · have hkept : e.bare.stringUnion? = e.stringUnion? := stringUnion?_without rfl fun _ => hreads
      exact iff_of_true hkept (.inr hreads)
  · intro gone hcast hinst
    have hnone : gone .cast = true → ¬ ReadsCast e := by simp [hcast]
    exact ⟨type_without hinst hnone, stringUnion?_without hinst hnone⟩

/-- A cascade stays one when the parentheses and the assertion around its alternative are removed. -/
theorem Expr.type_bare_iff_wrappedSize :
    ((sizeOr wrappedSize).without fun kind => kind ∈ Assertion.transparent) =
      sizeOr (sizeOr (.template 30 (.text "large") [])) ∧
    ((sizeOr wrappedSize).without fun kind => kind ∈ Assertion.transparent).type = (sizeOr wrappedSize).type ∧
    (sizeOr wrappedSize).type = .union [.const "", .const "large"] :=
  ⟨rfl, ((type_bare_iff (sizeOr wrappedSize)).2.2 _ (by decide) (by decide)).1, rfl⟩

/-- The cast `<number>1`. -/
def castNumber : Expr :=
  .assertion 0 .cast (.literal .number 8) []

/-- The type of a number is lost when it is cast. -/
theorem Expr.type_lost_by_cast : castNumber.bare.type = .named "number" ∧ castNumber.type = .any ∧
    castNumber.bare.type ≠ castNumber.type := by
  refine ⟨rfl, rfl, fun h => ?_⟩
  exact absurd (TypeDescriptor.named.inj h) (by decide)

end ComponentDoc.Script
