import ComponentDoc.Proofs.Binding.Exported
import ComponentDoc.Proofs.Binding.Resolved
import ComponentDoc.Proofs.Script.References

namespace ComponentDoc

open Script

namespace ScriptBlock

/-- The top level has a statement `$: x = value`. -/
def Reacts (script : ScriptBlock) (x : Ident) (value : Expr) : Prop :=
  ∃ item ∈ script.items, ∃ label start e type,
    item.kind = .statement (.labeled label (.expr start e)) ∧ label.name = "$" ∧
      e.unwrap = .assign "=" (.ident x type) value

/-- A variable, a function or an import of the script has the name. -/
def Binds (script : ScriptBlock) (name : String) : Prop :=
  script.DeclaresVariable name ∨ script.DeclaresFunction name ∨ script.Imports name

/-- A `$:` statement gives the name a value. -/
def Computes (script : ScriptBlock) (name : String) : Prop :=
  ∃ x value, script.Reacts x value ∧ x.name = name

/-- The computed value that a statement `$: x = value` stands for. -/
structure IsComputed (script : ScriptBlock) (scope : Nat) (x : Ident) (value : Expr) (o : Occurrence) :
    Prop where
  id_eq : o.id = .declared scope x.name
  kind_eq : o.kind = .computed
  name_eq : o.name = x.name
  ident_eq : o.ident = script.range x.span
  init_eq : o.init = some value
  dependencies : ListsReferences value (fun name => name ≠ x.name ∧ script.Binds name) o.dependencies

section

variable (script : ScriptBlock) (scope : Nat)

theorem assignment?_eq_some_iff {start : Nat} {isReactive : Bool} {e : Expr} {a : Assignment} :
    script.assignment? start isReactive e = some a ↔
      ∃ x type value, e.unwrap = .assign "=" (.ident x type) value ∧
        a = ⟨x.name, value, isReactive, script.range x.span, [script.place start]⟩ := by
  unfold assignment?
  constructor
  · intro h
    split at h
    · next x type value he => exact ⟨x, type, value, he, (Option.some.inj h).symm⟩
    · cases h
  · rintro ⟨x, type, value, he, rfl⟩
    rw [he]
    rfl

theorem isReactive_of_assignment? {start : Nat} {isReactive : Bool} {e : Expr} {a : Assignment}
    (h : script.assignment? start isReactive e = some a) : a.isReactive = isReactive := by
  obtain ⟨x, type, value, _, rfl⟩ := script.assignment?_eq_some_iff.mp h
  rfl

theorem mem_facts_assignments {a : Assignment} : a ∈ (script.facts scope).assignments ↔
    ∃ item ∈ script.items, a ∈ (script.itemFacts scope item).assignments :=
  script.mem_facts_iff scope Facts.assignments rfl fun _ _ => rfl

/-- Only a statement with the label `$` makes a reactive assignment. -/
theorem mem_itemFacts_reactive {item : Item} {a : Assignment} :
    a ∈ (script.itemFacts scope item).assignments ∧ a.isReactive = true ↔
      ∃ label start e, item.kind = .statement (.labeled label (.expr start e)) ∧ label.name = "$" ∧
        script.assignment? item.start true e = some a := by
  obtain ⟨start, kind⟩ := item
  cases kind with
  | statement statement =>
    cases statement with
    | expr first e =>
      constructor
      · rintro ⟨ha, hr⟩
        rw [script.isReactive_of_assignment? (Option.mem_toList.mp ha)] at hr
        cases hr
      · rintro ⟨label, s, e, hk, _⟩
        cases hk
    | labeled label body =>
      cases body with
      | expr first e =>
        by_cases hl : label.name = "$"
        · have hfacts :
              (script.itemFacts scope ⟨start, .statement (.labeled label (.expr first e))⟩).assignments =
                (script.assignment? start true e).toList := by
            simp [itemFacts, hl]
          rw [hfacts, Option.mem_toList]
          constructor
          · rintro ⟨ha, _⟩
            exact ⟨label, first, e, rfl, hl, ha⟩
          · rintro ⟨label, first, e, hk, _, ha⟩
            cases hk
            exact ⟨ha, script.isReactive_of_assignment? ha⟩
        · simp [itemFacts, hl]
      | _ => simp [itemFacts]
    | _ => simp [itemFacts]
  | _ => simp [itemFacts]

theorem reacts_of_mem {a : Assignment} (ha : a ∈ (script.facts scope).assignments)
    (hr : a.isReactive = true) :
    ∃ x, script.Reacts x a.value ∧ a.target = x.name ∧ a.ident = script.range x.span := by
  obtain ⟨item, hi, hm⟩ := (script.mem_facts_assignments scope).mp ha
  obtain ⟨label, start, e, hk, hl, he⟩ := (script.mem_itemFacts_reactive scope).mp ⟨hm, hr⟩
  obtain ⟨x, type, value, hv, rfl⟩ := script.assignment?_eq_some_iff.mp he
  exact ⟨x, ⟨item, hi, label, start, e, type, hk, hl, hv⟩, rfl, rfl⟩

theorem exists_mem_of_reacts {x : Ident} {value : Expr} (h : script.Reacts x value) :
    ∃ a ∈ (script.facts scope).assignments, a.isReactive = true ∧ a.target = x.name ∧
      a.value = value ∧ a.ident = script.range x.span := by
  obtain ⟨item, hi, label, start, e, type, hk, hl, hv⟩ := h
  have he : script.assignment? item.start true e =
      some ⟨x.name, value, true, script.range x.span, [script.place item.start]⟩ :=
    script.assignment?_eq_some_iff.mpr ⟨x, type, value, hv, rfl⟩
  obtain ⟨hm, hr⟩ := (script.mem_itemFacts_reactive scope).mpr ⟨label, start, e, hk, hl, he⟩
  exact ⟨_, (script.mem_facts_assignments scope).mpr ⟨item, hi, hm⟩, hr, rfl, rfl, rfl⟩

theorem binds_facts_iff {name : String} : (script.facts scope).binds name = true ↔ script.Binds name := by
  rw [Binds, ← or_assoc, ← script.exists_mem_declarations_iff scope, ← script.exists_mem_imports_iff scope]
  simp [Facts.binds, Facts.declaration?, Facts.import?]

theorem introduces_facts_iff {a : Assignment} :
    (script.facts scope).Introduces a ↔ a.isReactive = true ∧ ¬ script.Binds a.target := by
  rw [← Facts.introduces_iff, ← script.binds_facts_iff scope]
  simp [Facts.introduces]

theorem listsReferences_dependencies (a : Assignment) :
    ListsReferences a.value (fun name => name ≠ a.target ∧ script.Binds name)
      ((script.facts scope).dependencies a) := by
  have hlists := a.value.listsReferences fun name =>
    (script.facts scope).binds name && name != a.target
  rw [← List.filter_filter] at hlists
  have hcounts (name : String) : ((script.facts scope).binds name && name != a.target) = true ↔
      name ≠ a.target ∧ script.Binds name := by
    rw [Bool.and_eq_true, script.binds_facts_iff scope, bne_iff_ne, and_comm]
  simp only [hcounts] at hlists
  exact hlists

theorem isComputed_of_computedAs {a : Assignment} {before : List Assignment} {o : Occurrence} {x : Ident}
    (hn : a.target = x.name) (hi : a.ident = script.range x.span)
    (h : (script.facts scope).ComputedAs scope before a o) : script.IsComputed scope x a.value o := by
  obtain ⟨role, _⟩ := h
  refine ⟨by rw [hn], rfl, hn, hi, rfl, ?_⟩
  rw [← hn]
  exact script.listsReferences_dependencies scope a

end

section

variable {script : ScriptBlock} {scope : Nat} {os : List Occurrence}

theorem exists_isComputed (h : (script.facts scope).resolve scope = .ok os) {x : Ident} {value : Expr}
    (hr : script.Reacts x value) (hb : ¬ script.Binds x.name) :
    ∃ o ∈ os, script.IsComputed scope x value o := by
  obtain ⟨a, ha, hreactive, hn, rfl, hident⟩ := script.exists_mem_of_reacts scope hr
  have hi : (script.facts scope).Introduces a :=
    (script.introduces_facts_iff scope).mpr ⟨hreactive, by rwa [hn]⟩
  obtain ⟨o, ho, before, hc⟩ := Facts.exists_mem_computedAs h ha hi
  exact ⟨o, ho, script.isComputed_of_computedAs scope hn hident hc⟩

/-- Declarations, imports and exports are variables and functions, so that a computed value comes from a `$:`
statement. -/
theorem exists_reacts (h : (script.facts scope).resolve scope = .ok os) {o : Occurrence} (ho : o ∈ os)
    (hk : o.kind = .computed) :
    ∃ x value, script.Reacts x value ∧ ¬ script.Binds x.name ∧ script.IsComputed scope x value o := by
  have hdeclared {d : Occurrence} (hd : d ∈ (script.facts scope).declarations) : d.kind ≠ .computed := by
    rcases (isDeclaration_of_mem_facts hd).kind_eq with hd | hd <;> simp [hd]
  cases Facts.records_of_mem h ho with
  | declared hd value => exact (hdeclared hd hk).elim
  | imported he ht himported =>
    cases himported
    cases hk
  | exported he hexported =>
    cases hexported with
    | passedOn hs => cases hk
    | declared hs hfirst => exact (hdeclared hfirst.mem hk).elim
    | imported hs hd hi => cases hk
  | computed ha hi hcomputed =>
    obtain ⟨hr, hb⟩ := (script.introduces_facts_iff scope).mp hi
    obtain ⟨x, hreacts, hn, hident⟩ := script.reacts_of_mem scope ha hr
    exact ⟨x, _, hreacts, by rwa [← hn], script.isComputed_of_computedAs scope hn hident hcomputed⟩

/-- A computed value misses just the names that are brought in by a class or by another `$:` statement, and by
no variable, function or import. -/
theorem IsComputed.complete_iff {x : Ident} {value : Expr} {o : Occurrence}
    (h : script.IsComputed scope x value o) :
    (∀ name, value.RefersTo name → name ≠ x.name →
      script.Binds name ∨ script.DeclaresClass name ∨ script.Computes name → name ∈ o.dependencies) ↔
    ∀ name, value.RefersTo name → name ≠ x.name → script.DeclaresClass name ∨ script.Computes name →
      script.Binds name := by
  constructor
  · intro hall name hr hn hc
    exact ((h.dependencies.mem_iff name).mp (hall name hr hn (.inr hc))).2.2
  · intro hall name hr hn hc
    refine (h.dependencies.mem_iff name).mpr ⟨hr, hn, ?_⟩
    rcases hc with hb | hc
    · exact hb
    · exact hall name hr hn hc

/-- The computed values of a linked script are those of its `$:` statements with a name that nothing else
binds, each with the bound names that its value refers to. They are all that it could depend on just when it
refers to no class and to no other computed value. -/
theorem computed_lists_bound_references (h : (script.facts scope).resolve scope = .ok os) :
    (∀ x value, script.Reacts x value → ¬ script.Binds x.name → ∃ o ∈ os, script.IsComputed scope x value o) ∧
    ∀ o ∈ os, o.kind = .computed → ∃ x value, script.Reacts x value ∧ ¬ script.Binds x.name ∧
      script.IsComputed scope x value o ∧
      ((∀ name, value.RefersTo name → name ≠ x.name →
        script.Binds name ∨ script.DeclaresClass name ∨ script.Computes name → name ∈ o.dependencies) ↔
      ∀ name, value.RefersTo name → name ≠ x.name → script.DeclaresClass name ∨ script.Computes name →
        script.Binds name) := by
  refine ⟨fun x value hr hb => exists_isComputed h hr hb, ?_⟩
  intro o ho hk
  obtain ⟨x, value, hr, hb, hcomputed⟩ := exists_reacts h ho hk
  exact ⟨x, value, hr, hb, hcomputed, hcomputed.complete_iff⟩

end

/-- A computed value beside a variable, and another that refers to both. -/
def chainedText : List Char := "let c;$:a=c;$:b=a+c".toList

theorem exists_chained : ∃ script os, read chainedText 8 false false = .ok script ∧
    (script.facts 0).resolve 0 = .ok os ∧
    (∃ a ∈ os, a.kind = .computed ∧ a.name = "a") ∧
    ∃ b ∈ os, b.kind = .computed ∧ b.name = "b" ∧ b.init.map Expr.references = some ["a", "c"] ∧
      b.dependencies = ["c"] := by
  have h : (read chainedText 8 false false).toOption.bind (fun script =>
      ((script.facts 0).resolve 0).toOption.map fun os =>
        (decide (∃ a ∈ os, a.kind = .computed ∧ a.name = "a"),
          decide (∃ b ∈ os, b.kind = .computed ∧ b.name = "b" ∧
            b.init.map Expr.references = some ["a", "c"] ∧ b.dependencies = ["c"]))) =
      some (true, true) := by
    decide +kernel
  obtain ⟨script, hread, h⟩ := Option.bind_eq_some_iff.mp h
  obtain ⟨os, hos, h⟩ := Option.map_eq_some_iff.mp h
  obtain ⟨ha, hb⟩ := Prod.mk.inj h
  exact ⟨script, os, toOption_eq_some_iff.mp hread, toOption_eq_some_iff.mp hos, of_decide_eq_true ha,
    of_decide_eq_true hb⟩

theorem computed_lists_bound_references_chained : ∃ script os, read chainedText 8 false false = .ok script ∧
    (script.facts 0).resolve 0 = .ok os ∧ (∃ o ∈ os, o.kind = .computed ∧ o.dependencies = ["c"]) ∧
    (∀ x value, script.Reacts x value → ¬ script.Binds x.name → ∃ o ∈ os, script.IsComputed 0 x value o) ∧
    ∀ o ∈ os, o.kind = .computed → ∃ x value, script.Reacts x value ∧ ¬ script.Binds x.name ∧
      script.IsComputed 0 x value o ∧
      ((∀ name, value.RefersTo name → name ≠ x.name →
        script.Binds name ∨ script.DeclaresClass name ∨ script.Computes name → name ∈ o.dependencies) ↔
      ∀ name, value.RefersTo name → name ≠ x.name → script.DeclaresClass name ∨ script.Computes name →
        script.Binds name) := by
  obtain ⟨script, os, hread, hos, _, b, hb, hkind, _, _, hdeps⟩ := exists_chained
  exact ⟨script, os, hread, hos, ⟨b, hb, hkind, hdeps⟩, computed_lists_bound_references hos⟩

/-- The value of `b` refers to `a`, which another `$:` statement introduces, and `b` does not depend on it. -/
theorem other_computed_not_listed : ∃ script os, read chainedText 8 false false = .ok script ∧
    (script.facts 0).resolve 0 = .ok os ∧ ∃ o ∈ os, o.kind = .computed ∧ o.name = "b" ∧
    (∃ x value, script.Reacts x value ∧ x.name = "b" ∧ o.init = some value ∧ value.RefersTo "a") ∧
    script.Computes "a" ∧ "a" ∉ o.dependencies := by
  obtain ⟨script, os, hread, hos, ⟨a, ha, hakind, haname⟩, b, hb, hbkind, hbname, hbrefs, hbdeps⟩ :=
    exists_chained
  obtain ⟨x, value, hx, _, hxa⟩ := exists_reacts hos ha hakind
  obtain ⟨y, value', hy, _, hyb⟩ := exists_reacts hos hb hbkind
  refine ⟨script, os, hread, hos, b, hb, hbkind, hbname, ⟨y, value', hy, ?_, hyb.init_eq, ?_⟩, ?_, ?_⟩
  · rw [← hyb.name_eq, hbname]
  · rw [hyb.init_eq, Option.map_some, Option.some.injEq] at hbrefs
    rw [← Expr.mem_names_iff, ← List.mem_eraseDups, ← Expr.references_eq, hbrefs]
    simp
  · exact ⟨x, value, hx, by rw [← hxa.name_eq, haname]⟩
  · simp [hbdeps]

end ScriptBlock

end ComponentDoc
