import ComponentDoc.Proofs.Binding.Exported

/-!
The default values of parameters. A pattern may give a default to a name in it, or to the value that it takes apart
as a whole. All parameters that come of one pattern have the default of the whole, so that this is the one attached
to a name only where the name stands alone, or where neither the whole nor any name in it has a default.
-/
namespace ComponentDoc

open Script

namespace Script

mutual

/-- The pattern binds the name and attaches this default directly to it. -/
inductive Pattern.Attaches : Pattern → Ident → Option Expr → Prop where
  | ident {id : Ident} {type : List Part} : Pattern.Attaches (.ident id type) id none
  | named {id : Ident} {type : List Part} {value : Expr} :
      Pattern.Attaches (.withDefault (.ident id type) value) id (some value)
  /-- The default of a value that is taken apart is not one of the names in it. -/
  | whole {inner : Pattern} {value : Expr} {id : Ident} {default : Option Expr}
      (apart : ∀ id type, inner ≠ .ident id type) (attaches : Pattern.Attaches inner id default) :
      Pattern.Attaches (.withDefault inner value) id default
  | rest {start : Nat} {inner : Pattern} {type : List Part} {id : Ident} {default : Option Expr}
      (attaches : Pattern.Attaches inner id default) : Pattern.Attaches (.rest start inner type) id default
  | element {start : Nat} {elements : List Pattern} {type : List Part} {p : Pattern} {id : Ident}
      {default : Option Expr} (mem : p ∈ elements) (attaches : Pattern.Attaches p id default) :
      Pattern.Attaches (.array start elements type) id default
  | property {start : Nat} {properties : List PatternProperty} {type : List Part} {q : PatternProperty}
      {id : Ident} {default : Option Expr} (mem : q ∈ properties) (attaches : PatternProperty.Attaches q id default) :
      Pattern.Attaches (.object start properties type) id default

inductive PatternProperty.Attaches : PatternProperty → Ident → Option Expr → Prop where
  | keyValue {key : Key} {value : Pattern} {id : Ident} {default : Option Expr}
      (attaches : Pattern.Attaches value id default) : PatternProperty.Attaches (.keyValue key value) id default
  | shorthand {id : Ident} {default : Option Expr} : PatternProperty.Attaches (.shorthand id default) id default
  | rest {start : Nat} {inner : Pattern} {id : Ident} {default : Option Expr}
      (attaches : Pattern.Attaches inner id default) : PatternProperty.Attaches (.rest start inner) id default

end

/-- The default of the whole value that a pattern takes. -/
def Pattern.wholeDefault : Pattern → Option Expr
  | .withDefault _ value => some value
  | .rest _ inner _ => inner.wholeDefault
  | _ => none

/-- The pattern takes all values that are left. -/
def Pattern.takesRest : Pattern → Bool
  | .withDefault inner _ => inner.takesRest
  | .rest _ _ _ => true
  | _ => false

theorem Pattern.bound_eq_of_apart {p : Pattern} (h : ∀ id type, p ≠ .ident id type) (init : Option Expr) :
    p.bound init = p.bound none := by
  cases p with
  | ident id type => exact absurd rfl (h id type)
  | hole => rfl
  | array start elements type => rfl
  | object start properties type => rfl
  | rest start inner type => rfl
  | withDefault inner value => rfl
  | target inner => rfl

mutual

/-- A declaration without a value gives each name the default that the pattern attaches to it. -/
theorem Pattern.mem_bound_iff_attaches {id : Ident} {default : Option Expr} (p : Pattern) :
    ⟨id, default⟩ ∈ p.bound none ↔ p.Attaches id default := by
  cases p with
  | ident id' type =>
    rw [Pattern.bound, List.mem_singleton, BoundName.mk.injEq]
    constructor
    · rintro ⟨rfl, rfl⟩
      exact .ident
    · intro h
      cases h with
      | ident => exact ⟨rfl, rfl⟩
  | hole =>
    rw [Pattern.bound]
    exact ⟨fun h => (List.not_mem_nil h).elim, fun h => by cases h⟩
  | array start elements type =>
    rw [Pattern.bound, mem_boundByElements_iff elements]
    constructor
    · rintro ⟨p, hp, hattaches⟩
      exact .element hp hattaches
    · intro h
      cases h with
      | element hp hattaches => exact ⟨_, hp, hattaches⟩
  | object start properties type =>
    rw [Pattern.bound, mem_boundByProperties_iff properties]
    constructor
    · rintro ⟨q, hq, hattaches⟩
      exact .property hq hattaches
    · intro h
      cases h with
      | property hq hattaches => exact ⟨_, hq, hattaches⟩
  | rest start inner type =>
    rw [Pattern.bound, inner.mem_bound_iff_attaches]
    constructor
    · exact .rest
    · intro h
      cases h with
      | rest hattaches => exact hattaches
  | withDefault inner value =>
    rw [Pattern.bound]
    by_cases hapart : ∀ id type, inner ≠ .ident id type
    · rw [Pattern.bound_eq_of_apart hapart, inner.mem_bound_iff_attaches]
      constructor
      · exact .whole hapart
      · intro h
        cases h with
        | named => exact absurd rfl (hapart _ _)
        | whole _ hattaches => exact hattaches
    · push Not at hapart
      obtain ⟨id', type, rfl⟩ := hapart
      rw [Pattern.bound, List.mem_singleton, BoundName.mk.injEq]
      constructor
      · rintro ⟨rfl, rfl⟩
        exact .named
      · intro h
        cases h with
        | named => exact ⟨rfl, rfl⟩
        | whole hapart _ => exact absurd rfl (hapart _ _)
  | target inner =>
    rw [Pattern.bound]
    exact ⟨fun h => (List.not_mem_nil h).elim, fun h => by cases h⟩

theorem mem_boundByElements_iff {id : Ident} {default : Option Expr} (ps : List Pattern) :
    ⟨id, default⟩ ∈ boundByElements ps ↔ ∃ p ∈ ps, p.Attaches id default := by
  cases ps with
  | nil => simp [boundByElements]
  | cons p ps =>
    simp only [boundByElements, List.mem_append, p.mem_bound_iff_attaches, mem_boundByElements_iff ps,
      List.mem_cons, exists_eq_or_imp]

theorem mem_boundByProperties_iff {id : Ident} {default : Option Expr} (qs : List PatternProperty) :
    ⟨id, default⟩ ∈ boundByProperties qs ↔ ∃ q ∈ qs, q.Attaches id default := by
  cases qs with
  | nil => simp [boundByProperties]
  | cons q qs =>
    cases q with
    | keyValue key value =>
      have hvalue : (PatternProperty.keyValue key value).Attaches id default ↔ value.Attaches id default :=
        ⟨fun h => by cases h; assumption, .keyValue⟩
      simp only [boundByProperties, List.mem_append, value.mem_bound_iff_attaches, mem_boundByProperties_iff qs,
        List.mem_cons, exists_eq_or_imp, hvalue]
    | shorthand id' default' =>
      have hname : (PatternProperty.shorthand id' default').Attaches id default ↔ id = id' ∧ default = default' :=
        ⟨fun h => by cases h; exact ⟨rfl, rfl⟩, fun ⟨hid, hdefault⟩ => hid ▸ hdefault ▸ .shorthand⟩
      simp only [boundByProperties, List.mem_cons, BoundName.mk.injEq, mem_boundByProperties_iff qs,
        exists_eq_or_imp, hname]
    | rest start inner =>
      have hinner : (PatternProperty.rest start inner).Attaches id default ↔ inner.Attaches id default :=
        ⟨fun h => by cases h; assumption, .rest⟩
      simp only [boundByProperties, List.mem_append, inner.mem_bound_iff_attaches, mem_boundByProperties_iff qs,
        List.mem_cons, exists_eq_or_imp, hinner]

end

/-- All parameters of a pattern have one default, that of the whole. -/
theorem Pattern.params_eq (p : Pattern) :
    p.params = p.names.map fun id => ⟨id.name, p.wholeDefault, p.takesRest⟩ := by
  cases p with
  | ident id type => rfl
  | hole => rfl
  | array start elements type => rfl
  | object start properties type => rfl
  | rest start inner type =>
    rw [Pattern.params, inner.params_eq, List.map_map]
    rfl
  | withDefault inner value =>
    rw [Pattern.params, inner.params_eq, List.map_map]
    rfl
  | target inner => rfl

/-- The parameters of a pattern have the defaults that a declaration by the same pattern gives its names just when
every default that the pattern attaches to a name is that of the whole. -/
theorem Pattern.param_defaults_eq_iff (p : Pattern) :
    p.params.map (fun q => (q.name, q.default)) = (p.bound none).map (fun b => (b.id.name, b.init)) ↔
      ∀ id default, p.Attaches id default → default = p.wholeDefault := by
  rw [p.params_eq, ← p.map_id_bound none, List.map_map, List.map_map, List.map_inj_left]
  constructor
  · intro h id default hattaches
    have hsame := h ⟨id, default⟩ (p.mem_bound_iff_attaches.mpr hattaches)
    exact (Prod.mk.inj hsame).2.symm
  · intro h b hb
    have hsame := h b.id b.init (p.mem_bound_iff_attaches.mp hb)
    exact congrArg (Prod.mk b.id.name) hsame.symm

/-- The pattern `{a=1}`. -/
def defaultedName : Pattern :=
  .object 11 [.shorthand ⟨"a", ⟨12, 13⟩⟩ (some (.literal .number 14))] []

/-- The pattern `{a}={}`. -/
def defaultedWhole : Pattern :=
  .withDefault (.object 11 [.shorthand ⟨"a", ⟨12, 13⟩⟩ none] []) (.object 15 [])

/-- The default of a name in a pattern is lost, and that of the whole is given to each name. -/
theorem name_default_lost_and_whole_default_taken :
    defaultedName.params = [⟨"a", none, false⟩] ∧
      defaultedName.bound none = [⟨⟨"a", ⟨12, 13⟩⟩, some (.literal .number 14)⟩] ∧
    defaultedWhole.params = [⟨"a", some (.object 15 []), false⟩] ∧
      defaultedWhole.bound none = [⟨⟨"a", ⟨12, 13⟩⟩, none⟩] :=
  ⟨rfl, rfl, rfl, rfl⟩

end Script

end ComponentDoc
