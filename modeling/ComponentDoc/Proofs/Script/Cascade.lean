import ComponentDoc.Proofs.Sequence
import ComponentDoc.Script.Infer

namespace ComponentDoc.Script

open Text (StringValue)

/-- The assertions that are looked through. -/
def Assertion.transparent : List Assertion :=
  [.asType, .asConst, .satisfies, .nonNull]

/-- The core stands in any number of parentheses and assertions. -/
inductive Wraps (core : Expr) : Expr → Prop
  | bare : Wraps core core
  | paren {e : Expr} (start : Nat) (h : Wraps core e) : Wraps core (.paren start e)
  | assertion {e : Expr} {kind : Assertion} (start : Nat) (type : List Part)
      (hkind : kind ∈ Assertion.transparent) (h : Wraps core e) : Wraps core (.assertion start kind e type)

namespace Expr

theorem wraps_unwrap (e : Expr) : Wraps e.unwrap e := by
  fun_induction Expr.unwrap e with
  | case1 start inner ih => exact .paren start ih
  | case2 start inner type ih => exact .assertion start type (by decide) ih
  | case3 start inner type ih => exact .assertion start type (by decide) ih
  | case4 start inner type ih => exact .assertion start type (by decide) ih
  | case5 start inner type ih => exact .assertion start type (by decide) ih
  | case6 e => exact .bare

theorem unwrap_assertion {kind : Assertion} (hkind : kind ∈ Assertion.transparent) (start : Nat) (e : Expr)
    (type : List Part) : (Expr.assertion start kind e type).unwrap = e.unwrap := by
  fin_cases hkind <;> rfl

theorem choices?_assertion {kind : Assertion} (hkind : kind ∈ Assertion.transparent) (start : Nat) (e : Expr)
    (type : List Part) : (Expr.assertion start kind e type).choices? = e.choices? := by
  fin_cases hkind <;> rfl

end Expr

namespace Wraps

theorem trans {core e e' : Expr} (h : Wraps core e) (h' : Wraps e e') : Wraps core e' := by
  induction h' with
  | bare => exact h
  | paren start _ ih => exact .paren start ih
  | assertion start type hkind _ ih => exact .assertion start type hkind ih

variable {core e : Expr} (h : Wraps core e)
include h

theorem unwrap_eq : e.unwrap = core.unwrap := by
  induction h with
  | bare => rfl
  | paren start _ ih => exact ih
  | assertion start type hkind _ ih => rw [Expr.unwrap_assertion hkind, ih]

theorem choices?_eq : e.choices? = core.choices? := by
  induction h with
  | bare => rfl
  | paren start _ ih => exact ih
  | assertion start type hkind _ ih => rw [Expr.choices?_assertion hkind, ih]

theorem sizeOf_le : sizeOf core ≤ sizeOf e := by
  induction h with
  | bare => exact le_rfl
  | paren start _ ih => exact ih.trans (by simp)
  | assertion start type hkind _ ih => exact ih.trans (by simp; omega)

/-- What is found when an expression is looked through, if the core itself cannot be looked through. -/
theorem eq_of_unwrap_eq (hcore : core.unwrap = core) : e.unwrap = core := by
  rw [h.unwrap_eq, hcore]

theorem core_eq {core' : Expr} (h' : Wraps core' e) (hcore : core.unwrap = core)
    (hcore' : core'.unwrap = core') : core = core' := by
  rw [← h.eq_of_unwrap_eq hcore, h'.eq_of_unwrap_eq hcore']

end Wraps

theorem Expr.wraps_of_unwrap_eq {core e : Expr} (h : e.unwrap = core) : Wraps core e :=
  h ▸ e.wraps_unwrap

/-- A string literal, or a template without substitutions, that spells a text. -/
inductive IsText (e : Expr) (value : String) : Prop
  | string {lit : StringLit} (h : Wraps (.string lit) e) (hvalue : lit.value = .text value)
  | template {start : Nat} (h : Wraps (.template start (.text value) []) e)

theorem StringValue.text?_eq_some_iff {v : StringValue} {value : String} :
    v.text? = some value ↔ v = .text value := by
  cases v <;> simp [StringValue.text?]

theorem Expr.stringLiteral?_eq_some_iff {e : Expr} {value : String} :
    e.stringLiteral? = some value ↔ IsText e value := by
  constructor
  · intro h
    unfold stringLiteral? at h
    split at h
    next lit heq => exact .string (wraps_of_unwrap_eq heq) (StringValue.text?_eq_some_iff.mp h)
    next start head heq =>
      obtain rfl := StringValue.text?_eq_some_iff.mp h
      exact .template (wraps_of_unwrap_eq heq)
    next => cases h
  · rintro (⟨h, hvalue⟩ | h)
    · rw [stringLiteral?, h.eq_of_unwrap_eq rfl]
      exact StringValue.text?_eq_some_iff.mpr hvalue
    · rw [stringLiteral?, h.eq_of_unwrap_eq rfl]
      rfl

theorem Expr.isSome_stringLiteral?_iff {e : Expr} : e.stringLiteral?.isSome ↔ ∃ value, IsText e value := by
  simp only [Option.isSome_iff_exists, stringLiteral?_eq_some_iff]

/-- A strict comparison with a string on one side at least. -/
def ComparesText (test : Expr) : Prop :=
  ∃ left right, Wraps (.binary "===" left right) test ∧
    ((∃ value, IsText left value) ∨ ∃ value, IsText right value)

theorem Expr.comparesLiteral_iff {test : Expr} : test.comparesLiteral ↔ ComparesText test := by
  constructor
  · intro h
    unfold comparesLiteral at h
    split at h
    next op left right heq =>
      simp only [Bool.and_eq_true, Bool.or_eq_true, isSome_stringLiteral?_iff, beq_iff_eq] at h
      obtain ⟨rfl, hside⟩ := h
      exact ⟨left, right, wraps_of_unwrap_eq heq, hside⟩
    next => cases h
  · rintro ⟨left, right, h, hside⟩
    rw [comparesLiteral, h.eq_of_unwrap_eq rfl]
    simpa only [beq_self_eq_true, Bool.true_and, Bool.or_eq_true, isSome_stringLiteral?_iff] using hside

/-- A conditional that chooses a string by comparison with one, and else another string or what a further
cascade chooses; with these strings, from left to right. -/
inductive Cascade : Expr → List String → Prop
  | last {e test yes no : Expr} {first second : String} (h : Wraps (.conditional test yes no) e)
      (htest : ComparesText test) (hyes : IsText yes first) (hno : IsText no second) :
      Cascade e [first, second]
  | more {e test yes no : Expr} {first : String} {rest : List String} (h : Wraps (.conditional test yes no) e)
      (htest : ComparesText test) (hyes : IsText yes first) (hno : Cascade no rest) :
      Cascade e (first :: rest)

theorem Cascade.unwrap {e : Expr} {values : List String} (h : Cascade e values) :
    ∃ test yes no, e.unwrap = .conditional test yes no := by
  cases h with
  | last h htest hyes hno => exact ⟨_, _, _, h.eq_of_unwrap_eq rfl⟩
  | more h htest hyes hno => exact ⟨_, _, _, h.eq_of_unwrap_eq rfl⟩

theorem Cascade.ne_nil {e : Expr} {values : List String} (h : Cascade e values) : values ≠ [] := by
  cases h <;> exact List.cons_ne_nil _ _

/-- One step down a cascade. -/
theorem Expr.choices?_conditional_eq_some_iff {test yes no : Expr} {values : List String} :
    (Expr.conditional test yes no).choices? = some values ↔ ComparesText test ∧
      ∃ first rest, IsText yes first ∧ no.choices? = some rest ∧ values = first :: rest := by
  rw [choices?, ← comparesLiteral_iff]
  simp only [← stringLiteral?_eq_some_iff]
  by_cases htest : test.comparesLiteral = true
  · cases yes.stringLiteral? <;> cases no.choices? <;> simp [htest, eq_comm]
  · simp [htest]

theorem Expr.choices?_of_text {e : Expr} {value : String} (h : IsText e value) :
    e.choices? = some [value] := by
  cases h with
  | string h hv =>
    rw [h.choices?_eq, choices?]
    · simp [stringLiteral?, unwrap, hv, StringValue.text?]
    all_goals simp
  | template h =>
    rw [h.choices?_eq, choices?]
    · rfl
    all_goals simp

/-- The expression chooses from the strings: it is one string, or a cascade. -/
def Chooses (e : Expr) (values : List String) : Prop :=
  (∃ value, IsText e value ∧ values = [value]) ∨ Cascade e values

theorem Chooses.of_wraps {e e' : Expr} {values : List String} (h : Chooses e values) (hw : Wraps e e') :
    Chooses e' values := by
  rcases h with ⟨value, ⟨hs, hvalue⟩ | ht, rfl⟩ | h
  · exact .inl ⟨value, .string (hs.trans hw) hvalue, rfl⟩
  · exact .inl ⟨value, .template (ht.trans hw), rfl⟩
  · cases h with
    | last h htest hyes hno => exact .inr (.last (h.trans hw) htest hyes hno)
    | more h htest hyes hno => exact .inr (.more (h.trans hw) htest hyes hno)

theorem Expr.chooses_of_choices? {e : Expr} {values : List String} (h : e.choices? = some values) :
    Chooses e values := by
  fun_induction Expr.choices? e generalizing values
  case case1 start inner ih => exact (ih h).of_wraps (.paren start .bare)
  case case2 start inner type ih | case3 start inner type ih | case4 start inner type ih |
      case5 start inner type ih =>
    exact (ih h).of_wraps (.assertion start type (by decide) .bare)
  case case6 test yes no htest first rest hno hyes ih =>
    obtain rfl := Option.some.inj h
    have htest := comparesLiteral_iff.mp htest
    have hyes := stringLiteral?_eq_some_iff.mp hyes
    rcases ih hno with ⟨second, hsecond, rfl⟩ | hcascade
    · exact .inr (.last .bare htest hyes hsecond)
    · exact .inr (.more .bare htest hyes hcascade)
  case case7 => cases h
  case case8 => cases h
  case case9 e _ _ _ _ _ _ =>
    obtain ⟨value, hvalue, rfl⟩ := Option.map_eq_some_iff.mp h
    exact .inl ⟨value, stringLiteral?_eq_some_iff.mp hvalue, rfl⟩

theorem Expr.choices?_of_cascade {e : Expr} {values : List String} (h : Cascade e values) :
    e.choices? = some values := by
  induction h with
  | last h htest hyes hno =>
    rw [h.choices?_eq, choices?_conditional_eq_some_iff]
    exact ⟨htest, _, _, hyes, choices?_of_text hno, rfl⟩
  | more h htest hyes hno ih =>
    rw [h.choices?_eq, choices?_conditional_eq_some_iff]
    exact ⟨htest, _, _, hyes, ih, rfl⟩

/-- A conditional is read as a choice just when it is a cascade. -/
theorem Expr.choices?_eq_some_iff_cascade {e test yes no : Expr} (he : e.unwrap = .conditional test yes no)
    {values : List String} : e.choices? = some values ↔ Cascade e values := by
  refine ⟨fun h => ?_, choices?_of_cascade⟩
  rcases chooses_of_choices? h with ⟨value, hvalue, _⟩ | h
  · have hnone : e.stringLiteral? = none := by rw [stringLiteral?, he]
    rw [stringLiteral?_eq_some_iff.mpr hvalue] at hnone
    cases hnone
  · exact h

/-- The members are the values, each once, in the order in which they are first met. -/
structure KeepsFirst (values members : List String) : Prop where
  mem_iff : ∀ value, value ∈ members ↔ value ∈ values
  once : members.Nodup
  ordered : members.Pairwise fun a b => values.idxOf a < values.idxOf b

theorem keepsFirst_eraseDups (values : List String) : KeepsFirst values values.eraseDups where
  mem_iff _ := List.mem_eraseDups
  once := nodup_eraseDups values
  ordered := pairwise_idxOf_eraseDups values

theorem KeepsFirst.eq_eraseDups {values members : List String} (h : KeepsFirst values members) :
    members = values.eraseDups := by
  have hself := keepsFirst_eraseDups values
  have hperm : members.Perm values.eraseDups :=
    (List.perm_ext_iff_of_nodup h.once hself.once).mpr fun value => by rw [h.mem_iff, hself.mem_iff]
  exact hperm.eq_of_pairwise (fun a b _ _ hab hba => absurd hab (Nat.lt_asymm hba)) h.ordered hself.ordered

/-- The type of a cascade with these values. -/
def IsUnionOf (values : List String) (type : TypeDescriptor) : Prop :=
  ∃ members, KeepsFirst values members ∧ members ≠ [] ∧ type = .union (members.map .const)

theorem isUnionOf_iff {values : List String} (hne : values ≠ []) {type : TypeDescriptor} :
    IsUnionOf values type ↔ type = .union (values.eraseDups.map .const) := by
  constructor
  · rintro ⟨members, h, _, rfl⟩
    rw [h.eq_eraseDups]
  · rintro rfl
    refine ⟨values.eraseDups, keepsFirst_eraseDups values, ?_, rfl⟩
    obtain ⟨value, hvalue⟩ := List.exists_mem_of_ne_nil values hne
    exact List.ne_nil_of_mem (List.mem_eraseDups.mpr hvalue)

theorem Expr.stringUnion?_eq_some_iff {e : Expr} {type : TypeDescriptor} :
    e.stringUnion? = some type ↔ ∃ values, Cascade e values ∧ IsUnionOf values type := by
  constructor
  · intro h
    unfold stringUnion? at h
    split at h
    next test yes no he =>
      obtain ⟨values, hvalues, rfl⟩ := Option.map_eq_some_iff.mp h
      have hcascade := (choices?_eq_some_iff_cascade he).mp hvalues
      exact ⟨values, hcascade, (isUnionOf_iff hcascade.ne_nil).mpr rfl⟩
    next => cases h
  · rintro ⟨values, h, htype⟩
    obtain ⟨test, yes, no, he⟩ := h.unwrap
    rw [stringUnion?, he, (isUnionOf_iff h.ne_nil).mp htype]
    exact Option.map_eq_some_iff.mpr ⟨values, choices?_of_cascade h, rfl⟩

theorem Expr.stringUnion?_eq_none {e : Expr} (h : ∀ values, ¬ Cascade e values) : e.stringUnion? = none := by
  by_contra hsome
  obtain ⟨type, htype⟩ := Option.ne_none_iff_exists'.mp hsome
  obtain ⟨values, hcascade, _⟩ := stringUnion?_eq_some_iff.mp htype
  exact h values hcascade

theorem Expr.type_of_conditional {e test yes no : Expr} (he : e.unwrap = .conditional test yes no) :
    e.type = e.stringUnion?.getD .any := by
  rw [type, he]

/-- An expression has a union of strings just when it is a cascade, and then it has the strings of the cascade
as members, each once, where it first stands. The union is the type of the expression, and every conditional
that is no cascade is of any type. -/
theorem Expr.union_iff_cascade (e : Expr) :
    (∀ type, e.stringUnion? = some type ↔ ∃ values, Cascade e values ∧ IsUnionOf values type) ∧
    (∀ type, e.stringUnion? = some type → e.type = type) ∧
    ∀ test yes no, Wraps (.conditional test yes no) e → (∀ values, ¬ Cascade e values) → e.type = .any := by
  refine ⟨fun type => stringUnion?_eq_some_iff, ?_, ?_⟩
  · intro type h
    obtain ⟨values, hcascade, _⟩ := stringUnion?_eq_some_iff.mp h
    obtain ⟨test, yes, no, he⟩ := hcascade.unwrap
    rw [type_of_conditional he, h]
    rfl
  · intro test yes no h hnone
    rw [type_of_conditional (h.eq_of_unwrap_eq rfl), stringUnion?_eq_none hnone]
    rfl

/-- The conditional `size === '' ? '' : other`, with another expression for `other`. -/
def sizeOr (other : Expr) : Expr :=
  .conditional (.binary "===" (.ident ⟨"size", ⟨0, 4⟩⟩) (.string ⟨.text "", ⟨9, 11⟩⟩))
    (.string ⟨.text "", ⟨14, 16⟩⟩) other

/-- Such a conditional in parentheses, `(size === '' ? '' : …)!`, with a template for the alternative. -/
def wrappedSize : Expr :=
  .assertion 19 .nonNull (.paren 19 (sizeOr (.template 30 (.text "large") []))) []

/-- A cascade in parentheses is the alternative of another; an alternative that is no string spoils the union. -/
theorem Expr.union_iff_cascade_sizes :
    (sizeOr wrappedSize).stringUnion? = some (.union [.const "", .const "large"]) ∧
    (sizeOr wrappedSize).type = .union [.const "", .const "large"] ∧
    (∀ values, ¬ Cascade (sizeOr (.this 19)) values) ∧ (sizeOr (.this 19)).type = .any := by
  have hunion : (sizeOr wrappedSize).stringUnion? = some (.union [.const "", .const "large"]) := rfl
  have hnone (values : List String) : ¬ Cascade (sizeOr (.this 19)) values := by
    intro h
    have hchoices := choices?_of_cascade h
    cases hchoices
  exact ⟨hunion, (union_iff_cascade _).2.1 _ hunion, hnone, (union_iff_cascade _).2.2 _ _ _ .bare hnone⟩

end ComponentDoc.Script
