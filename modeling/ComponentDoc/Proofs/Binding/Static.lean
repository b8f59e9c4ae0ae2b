import ComponentDoc.Proofs.Binding.Computed

namespace ComponentDoc

open Script

namespace ScriptBlock

/-- A variable or a function of the script has the name. -/
def Declares (script : ScriptBlock) (name : String) : Prop :=
  script.DeclaresVariable name ∨ script.DeclaresFunction name

theorem Declares.binds {script : ScriptBlock} {name : String} (h : script.Declares name) :
    script.Binds name := by
  rcases h with h | h
  · exact .inl h
  · exact .inr (.inl h)

/-- An export list takes a name from another module, and not as a type alone. -/
def PassesOn (script : ScriptBlock) : Prop :=
  ∃ item ∈ script.items, ∃ list, item.kind = .exportList list ∧ list.typeOnly = false ∧
    (list.source.bind (·.value.text?)).isSome ∧ ∃ s ∈ list.specifiers, s.isTypeOnly = false

/-- A script with nothing at its top level but what it declares itself. -/
structure IsSelfContained (script : ScriptBlock) : Prop where
  passes_nothing : ¬ script.PassesOn
  exports_declared : ∀ name, script.ListsExport name → script.Declares name
  reacts_bound : ∀ x value, script.Reacts x value → script.Binds x.name

section

variable (script : ScriptBlock) (scope : Nat)

theorem exists_mem_exports_passed_iff :
    (∃ e ∈ (script.facts scope).exports, e.source.isSome) ↔ script.PassesOn := by
  simp only [mem_exports_iff]
  constructor
  · rintro ⟨e, ⟨item, hi, list, hk, ht, s, hs, hst, hse⟩, hsource⟩
    obtain ⟨e', he', hsource', _⟩ := script.exists_exportedName
      (list.source.bind (·.value.text?)) item.start hst
    obtain rfl : e = e' := Option.some.inj (hse.symm.trans he')
    exact ⟨item, hi, list, hk, ht, by rwa [← hsource'], s, hs, hst⟩
  · rintro ⟨item, hi, list, hk, ht, hsource, s, hs, hst⟩
    obtain ⟨e, he, hsource', _⟩ := script.exists_exportedName
      (list.source.bind (·.value.text?)) item.start hst
    exact ⟨e, ⟨item, hi, list, hk, ht, s, hs, hst, he⟩, by rwa [hsource']⟩

end

section

variable {script : ScriptBlock} {scope : Nat} {os : List Occurrence}

theorem declares_of_mem_facts {d : Occurrence} (hd : d ∈ (script.facts scope).declarations) :
    script.Declares d.name :=
  (script.exists_mem_declarations_iff scope).mp ⟨d, hd, rfl⟩

theorem exists_declares_of_mem_facts {d : Occurrence} (hd : d ∈ (script.facts scope).declarations) :
    ∃ name, d.id = .declared scope name ∧ script.Declares name :=
  ⟨d.name, (isDeclaration_of_mem_facts hd).id_eq, declares_of_mem_facts hd⟩

/-- An occurrence is static where it is of something that a module script declares. -/
theorem isStatic_iff_declares (h : (script.facts scope).resolve scope = .ok os) {o : Occurrence}
    (ho : o ∈ os) :
    o.isStatic = true ↔ script.isModule = true ∧ ∃ name, o.id = .declared scope name ∧ script.Declares name := by
  have hdeclared {d : Occurrence} (hd : d ∈ (script.facts scope).declarations) :
      d.isStatic = true ↔
        script.isModule = true ∧ ∃ name, d.id = .declared scope name ∧ script.Declares name := by
    rw [(isDeclaration_of_mem_facts hd).isStatic_eq]
    exact ⟨fun hm => ⟨hm, exists_declares_of_mem_facts hd⟩, And.left⟩
  -- An import has the identity of another module's name.
  have himported {path name : String} : ¬ (script.isModule = true ∧
      ∃ n, Identity.imported path name = .declared scope n ∧ script.Declares n) := by
    rintro ⟨_, n, hid, _⟩
    cases hid
  cases Facts.records_of_mem h ho with
  | declared hd value => exact (hdeclared hd :)
  | imported he ht hi =>
    cases hi
    exact iff_of_false Bool.false_ne_true himported
  | exported he hexported =>
    cases hexported with
    | passedOn hs => exact iff_of_false Bool.false_ne_true himported
    | declared hs hfirst => exact (hdeclared hfirst.mem :)
    | imported hs hd hi => exact iff_of_false Bool.false_ne_true himported
  | @computed a before o ha hi hcomputed =>
    cases hcomputed
    refine iff_of_false Bool.false_ne_true ?_
    rintro ⟨_, name, hid, hd⟩
    cases hid
    exact ((script.introduces_facts_iff scope).mp hi).2 hd.binds

/-- What else the top level of a script can hold has an occurrence that is of no declaration. -/
theorem isSelfContained_of_forall (h : (script.facts scope).resolve scope = .ok os)
    (hall : ∀ o ∈ os, ∃ name, o.id = .declared scope name ∧ script.Declares name) :
    script.IsSelfContained := by
  have hexport {e : ExportedName} (he : e ∈ (script.facts scope).exports) :
      e.source = none ∧ script.Declares e.localName := by
    obtain ⟨o, ho, hexported⟩ := Facts.exists_mem_exportedAs h he
    obtain ⟨name, hid, _⟩ := hall o ho
    cases hexported with
    | passedOn hs => cases hid
    | declared hs hfirst =>
      have hd := declares_of_mem_facts hfirst.mem
      rw [hfirst.name_eq] at hd
      exact ⟨hs, hd⟩
    | imported hs hd hi => cases hid
  refine ⟨fun hp => ?_, fun name hl => ?_, fun x value hr => ?_⟩
  · obtain ⟨e, he, hsource⟩ := (script.exists_mem_exports_passed_iff scope).mpr hp
    rw [(hexport he).1] at hsource
    cases hsource
  · obtain ⟨e, he, _, rfl⟩ := (script.exists_mem_exports_iff scope).mpr hl
    exact (hexport he).2
  · by_contra hb
    obtain ⟨o, ho, hcomputed⟩ := exists_isComputed h hr hb
    obtain ⟨name, hid, hd⟩ := hall o ho
    rw [hcomputed.id_eq] at hid
    cases hid
    exact hb hd.binds

theorem IsSelfContained.declares_of_mem (hself : script.IsSelfContained)
    (h : (script.facts scope).resolve scope = .ok os) {o : Occurrence} (ho : o ∈ os) :
    ∃ name, o.id = .declared scope name ∧ script.Declares name := by
  have hexport {e : ExportedName} (he : e ∈ (script.facts scope).exports) (hs : e.source = none) :
      ∃ d ∈ (script.facts scope).declarations, d.name = e.localName :=
    (script.exists_mem_declarations_iff scope).mpr
      (hself.exports_declared _ ((script.exists_mem_exports_iff scope).mp ⟨e, he, hs, rfl⟩))
  cases Facts.records_of_mem h ho with
  | declared hd value => exact (exists_declares_of_mem_facts hd :)
  | imported he ht hi =>
    obtain ⟨d, hd, hn⟩ := hexport he ht.1
    exact absurd hn (ht.2.1 d hd)
  | exported he hexported =>
    cases hexported with
    | passedOn hs =>
      refine absurd ((script.exists_mem_exports_passed_iff scope).mp ⟨_, he, ?_⟩) hself.passes_nothing
      rw [hs]
      rfl
    | declared hs hfirst => exact (exists_declares_of_mem_facts hfirst.mem :)
    | imported hs hnone hi =>
      obtain ⟨d, hd, hn⟩ := hexport he hs
      exact absurd hn (hnone d hd)
  | computed ha hi hcomputed =>
    obtain ⟨hreactive, hb⟩ := (script.introduces_facts_iff scope).mp hi
    obtain ⟨x, hr, hn, _⟩ := script.reacts_of_mem scope ha hreactive
    rw [hn] at hb
    exact absurd (hself.reacts_bound x _ hr) hb

/-- In a linked script, just what a module script declares is static. A module script is static throughout
just when it exports only what it declares and computes nothing else; no other script has a static part. -/
theorem static_iff_module_declares (h : (script.facts scope).resolve scope = .ok os) :
    (∀ o ∈ os, o.isStatic = true ↔
      script.isModule = true ∧ ∃ name, o.id = .declared scope name ∧ script.Declares name) ∧
    (script.isModule = true → ((∀ o ∈ os, o.isStatic = true) ↔ script.IsSelfContained)) ∧
    (script.isModule = false → ∀ o ∈ os, o.isStatic = false) := by
  refine ⟨fun o ho => isStatic_iff_declares h ho, fun hm => ⟨fun hall => ?_, fun hself o ho => ?_⟩, ?_⟩
  · exact isSelfContained_of_forall h fun o ho => ((isStatic_iff_declares h ho).mp (hall o ho)).2
  · exact (isStatic_iff_declares h ho).mpr ⟨hm, hself.declares_of_mem h ho⟩
  · intro hm o ho
    rw [← Bool.not_eq_true, isStatic_iff_declares h ho, hm]
    simp

end

/-- A module script with a variable, an import and a name of another module, all exported, and a computed
value. -/
def sharedText : List Char := "import a from'm';let b;export{a,b};export{d}from'n';$:c=1".toList

theorem exists_shared : ∃ script os, read sharedText 25 true false = .ok script ∧ script.isModule = true ∧
    (script.facts 0).resolve 0 = .ok os ∧
    (os.map fun o => (o.name, o.isStatic)) =
      [("b", true), ("a", false), ("a", false), ("b", true), ("d", false), ("c", false)] := by
  have h : (read sharedText 25 true false).toOption.map (fun script => (script.isModule,
      ((script.facts 0).resolve 0).toOption.map (List.map fun o => (o.name, o.isStatic)))) =
      some (true, some
        [("b", true), ("a", false), ("a", false), ("b", true), ("d", false), ("c", false)]) := by
    decide +kernel
  obtain ⟨script, hread, h⟩ := Option.map_eq_some_iff.mp h
  obtain ⟨hmodule, h⟩ := Prod.mk.inj h
  obtain ⟨os, hos, h⟩ := Option.map_eq_some_iff.mp h
  exact ⟨script, os, toOption_eq_some_iff.mp hread, hmodule, toOption_eq_some_iff.mp hos, h⟩

theorem static_iff_module_declares_shared : ∃ script os, read sharedText 25 true false = .ok script ∧
    (script.facts 0).resolve 0 = .ok os ∧ os.length = 6 ∧
    (∀ o ∈ os, o.isStatic = true ↔
      script.isModule = true ∧ ∃ name, o.id = .declared 0 name ∧ script.Declares name) ∧
    (script.isModule = true → ((∀ o ∈ os, o.isStatic = true) ↔ script.IsSelfContained)) ∧
    (script.isModule = false → ∀ o ∈ os, o.isStatic = false) := by
  obtain ⟨script, os, hread, _, hos, hdata⟩ := exists_shared
  have hlength := congrArg List.length hdata
  rw [List.length_map] at hlength
  exact ⟨script, os, hread, hos, hlength, static_iff_module_declares hos⟩

/-- In a module script the exported import, the name passed on and the computed value are not static. -/
theorem module_occurrence_not_static : ∃ script os, read sharedText 25 true false = .ok script ∧
    script.isModule = true ∧ (script.facts 0).resolve 0 = .ok os ∧
    ∀ name ∈ ["a", "d", "c"], ∃ o ∈ os, o.name = name ∧ o.isStatic = false := by
  obtain ⟨script, os, hread, hm, hos, hdata⟩ := exists_shared
  refine ⟨script, os, hread, hm, hos, fun name hname => ?_⟩
  have hin : (name, false) ∈ os.map fun o => (o.name, o.isStatic) := by
    rw [hdata]
    simp only [List.mem_cons, List.not_mem_nil, or_false] at hname
    rcases hname with rfl | rfl | rfl <;> decide
  obtain ⟨o, ho, hdata⟩ := List.mem_map.mp hin
  obtain ⟨hn, hs⟩ := Prod.mk.inj hdata
  exact ⟨o, ho, hn, hs⟩

end ScriptBlock

end ComponentDoc
