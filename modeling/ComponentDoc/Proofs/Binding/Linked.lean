import ComponentDoc.Binding.Dialect
import ComponentDoc.Proofs.Sequence

/-!
Occurrences by kind and role. Each list of occurrences holds only those of the kind asked for, and every
use in it stands beside a declaration of the same identity: a declaration with its exports, an import with
its exports, the first of several `$:` assignments with the later ones, a function with the method that
names it.
-/
namespace ComponentDoc

open Script

/-- An occurrence that declares something of a kind. -/
def Occurrence.Declares (kind : EntityKind) (o : Occurrence) : Prop :=
  o.kind = kind ∧ o.role = .declaration

/-- Every use has a declaration of what it uses beside it, of the same kind. -/
def Linked (os : List Occurrence) : Prop :=
  ∀ u ∈ os, u.role = .usage → ∃ d ∈ os, d.role = .declaration ∧ d.id = u.id ∧ d.kind = u.kind

namespace Linked

theorem of_declares {kind : EntityKind} {os : List Occurrence} (h : ∀ o ∈ os, o.Declares kind) :
    Linked os := by
  intro u hu hr
  rw [(h u hu).2] at hr
  cases hr

theorem flatten {oss : List (List Occurrence)} (h : ∀ os ∈ oss, Linked os) : Linked oss.flatten := by
  intro u hu hr
  obtain ⟨os, ho, hm⟩ := List.mem_flatten.mp hu
  obtain ⟨d, hd, hl⟩ := h os ho u hm hr
  exact ⟨d, List.mem_flatten.mpr ⟨os, ho, hd⟩, hl⟩

/-- A declaration has the kind of its uses, so that leaving out other kinds parts none of them. -/
theorem filter_kind {os : List Occurrence} (h : Linked os) (kind : EntityKind) :
    Linked (os.filter (·.kind == kind)) := by
  intro u hu hr
  obtain ⟨hm, hk⟩ := List.mem_filter.mp hu
  obtain ⟨d, hd, hrole, hid, hkind⟩ := h u hm hr
  exact ⟨d, List.mem_filter.mpr ⟨hd, by rw [hkind]; exact hk⟩, hrole, hid, hkind⟩

end Linked

namespace Facts

/-- The declarations of a script stay as they are, apart from the value assigned last. -/
theorem reassigned_forall₂ (facts : Facts) (seen : List String) (ds : List Occurrence) :
    List.Forall₂ (fun d o => o = { d with reassigned := o.reassigned }) ds
      (facts.reassigned seen ds) := by
  induction ds generalizing seen with
  | nil => exact .nil
  | cons d ds ih =>
    refine .cons ?_ (ih _)
    by_cases hs : seen.contains d.name
    · rw [if_pos hs]
    · rw [if_neg hs]

theorem exists_mem_reassigned (facts : Facts) {ds : List Occurrence} {d : Occurrence} (hd : d ∈ ds) :
    ∃ o ∈ facts.reassigned [] ds, o.role = d.role ∧ o.id = d.id ∧ o.kind = d.kind := by
  obtain ⟨o, ho, h⟩ := mem_of_forall₂_left (facts.reassigned_forall₂ [] ds) hd
  exact ⟨o, ho, by rw [h], by rw [h], by rw [h]⟩

theorem role_of_mem_reassigned {facts : Facts} (hd : ∀ d ∈ facts.declarations, d.role = .declaration)
    {o : Occurrence} (ho : o ∈ facts.reassigned [] facts.declarations) : o.role = .declaration := by
  obtain ⟨d, hm, h⟩ := mem_of_forall₂ (facts.reassigned_forall₂ [] facts.declarations) ho
  rw [h]
  exact hd d hm

/-- The target of an export, by where it is found. -/
def ExportTarget.IsOf (facts : Facts) (e : ExportedName) : ExportTarget → Prop
  | .passedOn path => e.source = some path
  | .declared d => e.source = none ∧ facts.declaration? e.localName = some d
  | .imported entry => e.source = none ∧ facts.declaration? e.localName = none ∧
      facts.import? e.localName = some entry

theorem isOf_of_exportTarget? {facts : Facts} {e : ExportedName} {target : ExportTarget}
    (h : facts.exportTarget? e = some target) : target.IsOf facts e := by
  unfold exportTarget? at h
  cases hs : e.source with
  | some path =>
    obtain rfl : ExportTarget.passedOn path = target := by simpa [hs] using h
    exact hs
  | none =>
    cases hd : facts.declaration? e.localName with
    | some d =>
      obtain rfl : ExportTarget.declared d = target := by simpa [hs, hd] using h
      exact ⟨hs, hd⟩
    | none =>
      obtain ⟨entry, hi, rfl⟩ : ∃ entry, facts.import? e.localName = some entry ∧
          ExportTarget.imported entry = target := by simpa [hs, hd] using h
      exact ⟨hs, hd, hi⟩

theorem exportTarget_eq_ok {facts : Facts} {e : ExportedName} {p : ExportedName × ExportTarget}
    (h : facts.exportTarget e = .ok p) : p.1 = e ∧ p.2.IsOf facts e := by
  unfold exportTarget at h
  cases ht : facts.exportTarget? e with
  | none => simp [ht] at h
  | some target =>
    obtain rfl : (e, target) = p := by simpa [ht] using h
    exact ⟨rfl, isOf_of_exportTarget? ht⟩

theorem import?_localName {facts : Facts} {name : String} {entry : ImportedName}
    (h : facts.import? name = some entry) : entry.localName = name := by
  simpa using List.find?_some h

/-- Every import has one of its local name among the distinct ones. -/
theorem exists_mem_distinctImports (seen : List String) {is : List ImportedName} {i : ImportedName}
    (hi : i ∈ is) (hs : i.localName ∉ seen) :
    ∃ j ∈ distinctImports seen is, j ∈ is ∧ j.localName = i.localName := by
  induction is generalizing seen with
  | nil => simp at hi
  | cons k is ih =>
    unfold distinctImports
    by_cases hk : k.localName ∈ seen
    · have hm : i ∈ is := by
        rcases List.mem_cons.mp hi with rfl | hm
        · exact absurd hk hs
        · exact hm
      obtain ⟨j, hj, hjs, hn⟩ := ih seen hm hs
      exact ⟨j, by simpa [hk] using hj, List.mem_cons_of_mem _ hjs, hn⟩
    · by_cases he : i.localName = k.localName
      · exact ⟨k, by simp [hk], List.mem_cons_self, he.symm⟩
      · have hm : i ∈ is := by
          rcases List.mem_cons.mp hi with rfl | hm
          · exact absurd rfl he
          · exact hm
        obtain ⟨j, hj, hjs, hn⟩ := ih (k.localName :: seen) hm (by simp [he, hs])
        exact ⟨j, by simp [hk, hj], List.mem_cons_of_mem _ hjs, hn⟩

theorem of_mem_computedFrom {facts : Facts} {scope : Nat} {seen : List String} {as : List Assignment}
    {o : Occurrence} (ho : o ∈ facts.computedFrom scope seen as) :
    o.id = .declared scope o.name ∧ o.kind = .computed := by
  induction as generalizing seen with
  | nil => simp [computedFrom] at ho
  | cons a as ih =>
    unfold computedFrom at ho
    rcases List.mem_cons.mp ho with rfl | hm
    · exact ⟨rfl, rfl⟩
    · exact ih hm

/-- A computed value that is assigned again has been declared by the first assignment. -/
theorem exists_declaration_computedFrom (facts : Facts) (scope : Nat) {seen : List String}
    {as : List Assignment} {u : Occurrence} (hu : u ∈ facts.computedFrom scope seen as)
    (hr : u.role = .usage) (hs : u.name ∉ seen) :
    ∃ d ∈ facts.computedFrom scope seen as, d.role = .declaration ∧ d.name = u.name := by
  induction as generalizing seen with
  | nil => simp [computedFrom] at hu
  | cons a as ih =>
    unfold computedFrom at hu ⊢
    by_cases hn : u.name = a.target
    · -- The first assignment to the name declares it, as the name is not among those seen.
      exact ⟨_, List.mem_cons_self, by simp [← hn, hs], hn.symm⟩
    · rcases List.mem_cons.mp hu with rfl | hm
      · exact absurd rfl hn
      · obtain ⟨d, hd, h⟩ := ih hm (by simp [hn, hs])
        exact ⟨d, List.mem_cons_of_mem _ hd, h⟩

theorem computed_linked (facts : Facts) (scope : Nat) : Linked (facts.computed scope) := by
  intro u hu hr
  obtain ⟨d, hd, hrole, hn⟩ := facts.exists_declaration_computedFrom scope hu hr (by simp)
  obtain ⟨hid, hk⟩ := of_mem_computedFrom hd
  obtain ⟨hid', hk'⟩ := of_mem_computedFrom hu
  exact ⟨d, hd, hrole, by rw [hid, hid', hn], by rw [hk, hk']⟩

/-- The occurrences in a script in their four parts: declarations, exported imports, exports and
computed values. -/
theorem resolve_eq_ok {facts : Facts} {scope : Nat} {os : List Occurrence}
    (h : facts.resolve scope = .ok os) : ∃ exports : List (ExportedName × ExportTarget),
      (∀ p ∈ exports, p.2.IsOf facts p.1) ∧
      os = facts.reassigned [] facts.declarations
        ++ (distinctImports [] (exports.filterMap fun p => p.2.import?)).map importOccurrence
        ++ exports.map (fun p => exportOccurrence p.1 p.2) ++ facts.computed scope := by
  obtain ⟨exports, he, h⟩ := bind_eq_ok_iff.mp h
  refine ⟨exports, ?_, (Except.ok.inj h).symm⟩
  intro p hp
  obtain ⟨e, _, ht⟩ := mem_of_forall₂ (mapM_eq_ok_iff.mp he) hp
  obtain ⟨rfl, hof⟩ := exportTarget_eq_ok ht
  exact hof

/-- All exports of a local name that stand for an import stand for the one that binds it last. -/
theorem import?_of_mem_imports {facts : Facts} {exports : List (ExportedName × ExportTarget)}
    (hof : ∀ p ∈ exports, p.2.IsOf facts p.1) {i : ImportedName}
    (hi : i ∈ exports.filterMap fun p => p.2.import?) : facts.import? i.localName = some i := by
  obtain ⟨⟨e, target⟩, hp, ht⟩ := List.mem_filterMap.mp hi
  cases target with
  | passedOn path => simp [ExportTarget.import?] at ht
  | declared d => simp [ExportTarget.import?] at ht
  | imported entry =>
    obtain rfl : entry = i := by simpa [ExportTarget.import?] using ht
    have hlast := (hof _ hp).2.2
    rw [import?_localName hlast]
    exact hlast

/-- An export of an import stands beside the import. -/
theorem exists_mem_exported_imports {facts : Facts} {exports : List (ExportedName × ExportTarget)}
    (hof : ∀ p ∈ exports, p.2.IsOf facts p.1) {e : ExportedName} {entry : ImportedName}
    (hp : (e, .imported entry) ∈ exports) :
    entry ∈ distinctImports [] (exports.filterMap fun p => p.2.import?) := by
  have hm : entry ∈ exports.filterMap fun p => p.2.import? :=
    List.mem_filterMap.mpr ⟨_, hp, rfl⟩
  obtain ⟨j, hj, hjm, hn⟩ := exists_mem_distinctImports [] hm (by simp)
  have he : some j = some entry := by
    rw [← import?_of_mem_imports hof hjm, hn, import?_of_mem_imports hof hm]
  rwa [Option.some.inj he] at hj

theorem resolve_linked {facts : Facts} {scope : Nat} {os : List Occurrence}
    (hd : ∀ d ∈ facts.declarations, d.role = .declaration) (h : facts.resolve scope = .ok os) :
    Linked os := by
  obtain ⟨exports, hof, rfl⟩ := resolve_eq_ok h
  intro u hu hr
  simp only [List.mem_append] at hu ⊢
  rcases hu with ((hu | hu) | hu) | hu
  · rw [role_of_mem_reassigned hd hu] at hr
    cases hr
  · obtain ⟨i, _, rfl⟩ := List.mem_map.mp hu
    cases hr
  · obtain ⟨⟨e, target⟩, hp, rfl⟩ := List.mem_map.mp hu
    cases target with
    | passedOn path => cases hr
    | declared d =>
      have hm : d ∈ facts.declarations := List.mem_of_find?_eq_some (hof _ hp).2
      obtain ⟨o, ho, hrole, hid, hk⟩ := facts.exists_mem_reassigned hm
      exact ⟨o, Or.inl (Or.inl (Or.inl ho)), hrole.trans (hd d hm), hid, hk⟩
    | imported entry =>
      have hm := List.mem_map_of_mem (f := importOccurrence) (exists_mem_exported_imports hof hp)
      exact ⟨_, Or.inl (Or.inl (Or.inr hm)), rfl, rfl, rfl⟩
  · obtain ⟨d, hm, hl⟩ := facts.computed_linked scope u hu hr
    exact ⟨d, Or.inr hm, hl⟩

end Facts

namespace ScriptBlock

/-- A variable or a function that the top level declares. -/
structure IsDeclaration (script : ScriptBlock) (scope : Nat) (o : Occurrence) : Prop where
  id_eq : o.id = .declared scope o.name
  kind_eq : o.kind = .data ∨ o.kind = .method
  role_eq : o.role = .declaration
  isStatic_eq : o.isStatic = script.isModule

theorem isDeclaration_of_mem_declared {script : ScriptBlock} {scope start : Nat} {isExported : Bool}
    {decl : Decl} {o : Occurrence} (ho : o ∈ script.declared scope isExported start decl) :
    script.IsDeclaration scope o := by
  cases decl with
  | vars first isConst declarators =>
    obtain ⟨os, hos, hm⟩ := List.mem_flatten.mp ho
    obtain ⟨⟨span, pattern, init⟩, _, rfl⟩ := List.mem_map.mp hos
    obtain ⟨bound, _, rfl⟩ := List.mem_map.mp hm
    exact ⟨rfl, .inl rfl, rfl, rfl⟩
  | function first name func =>
    obtain rfl := List.mem_singleton.mp ho
    exact ⟨rfl, .inr rfl, rfl, rfl⟩
  | classDecl => simp [declared] at ho
  | compound => simp [declared] at ho

theorem isDeclaration_of_mem_itemFacts {script : ScriptBlock} {scope : Nat} {item : Item} {o : Occurrence}
    (ho : o ∈ (script.itemFacts scope item).declarations) : script.IsDeclaration scope o := by
  unfold itemFacts at ho
  split at ho
  · exact isDeclaration_of_mem_declared ho
  · exact isDeclaration_of_mem_declared ho
  · cases ho
  · cases ho
  · cases ho
  · split_ifs at ho <;> cases ho
  · cases ho

/-- A list of the facts of a script holds what it holds for one of the items. -/
theorem mem_facts_iff {α : Type} (script : ScriptBlock) (scope : Nat) (part : Facts → List α)
    (hempty : part {} = []) (happend : ∀ a b : Facts, part (a.append b) = part a ++ part b) {x : α} :
    x ∈ part (script.facts scope) ↔ ∃ item ∈ script.items, x ∈ part (script.itemFacts scope item) := by
  unfold facts
  induction script.items with
  | nil => simp [hempty]
  | cons item items ih => simp [happend, ih]

theorem mem_facts_declarations {script : ScriptBlock} {scope : Nat} {o : Occurrence} :
    o ∈ (script.facts scope).declarations ↔
      ∃ item ∈ script.items, o ∈ (script.itemFacts scope item).declarations :=
  script.mem_facts_iff scope Facts.declarations rfl fun _ _ => rfl

theorem isDeclaration_of_mem_facts {script : ScriptBlock} {scope : Nat} {o : Occurrence}
    (ho : o ∈ (script.facts scope).declarations) : script.IsDeclaration scope o := by
  obtain ⟨item, _, hm⟩ := mem_facts_declarations.mp ho
  exact isDeclaration_of_mem_itemFacts hm

theorem declares_of_mem_events {script : ScriptBlock} {emitter : Emitter} {o : Occurrence}
    (ho : o ∈ script.events emitter) : o.Declares .event := by
  obtain ⟨visit, _, he⟩ := List.mem_filterMap.mp ho
  cases visit with
  | ident id => simp [event?] at he
  | call statement callee arguments =>
    simp only [event?] at he
    split_ifs at he
    cases arguments with
    | nil => simp at he
    | cons argument rest =>
      obtain ⟨found, _, rfl⟩ := Option.map_eq_some_iff.mp he
      exact ⟨rfl, rfl⟩

end ScriptBlock

namespace Definition

theorem declares_of_mem_data {d : Definition} {os : List Occurrence} (h : d.data = .ok os)
    {o : Occurrence} (ho : o ∈ os) : o.Declares .data := by
  obtain ⟨members, _, rfl⟩ := map_eq_ok_iff.mp h
  obtain ⟨m, _, hm⟩ := List.mem_filterMap.mp ho
  obtain ⟨name, _, rfl⟩ := Option.map_eq_some_iff.mp hm
  dsimp only
  split
  · exact ⟨rfl, rfl⟩
  · exact ⟨rfl, rfl⟩
  · split <;> exact ⟨rfl, rfl⟩
  · exact ⟨rfl, rfl⟩

theorem declares_of_mem_computed {d : Definition} {os : List Occurrence} (h : d.computed = .ok os)
    {o : Occurrence} (ho : o ∈ os) : o.Declares .computed := by
  obtain ⟨members, _, h⟩ := bind_eq_ok_iff.mp h
  obtain ⟨found, hf, h⟩ := bind_eq_ok_iff.mp h
  obtain rfl : found.filterMap id = os := Except.ok.inj h
  obtain ⟨o', ho', rfl⟩ := List.mem_filterMap.mp ho
  obtain ⟨m, _, hm⟩ := mem_of_forall₂ (mapM_eq_ok_iff.mp hf) ho'
  unfold computedOccurrence at hm
  cases hn : m.name? with
  | none => simp [hn] at hm
  | some name =>
    simp only [hn] at hm
    obtain ⟨value, _, hv⟩ := map_eq_ok_iff.mp hm
    cases value with
    | function func reference =>
      obtain rfl := Option.some.inj hv
      exact ⟨rfl, rfl⟩
    | object members => cases hv
    | other => cases hv

/-- A method is a declaration, or a use that stands beside the declaration of its function. -/
theorem methodOccurrences_eq_ok {d : Definition} {m : Member} {os : List Occurrence}
    (h : d.methodOccurrences m = .ok os) : (∀ o ∈ os, o.kind = .method) ∧ Linked os := by
  unfold methodOccurrences at h
  cases hn : m.name? with
  | none =>
    obtain rfl : [] = os := by simpa [hn] using h
    exact ⟨by simp, by simp [Linked]⟩
  | some name =>
    simp only [hn] at h
    obtain ⟨value, _, rfl⟩ := map_eq_ok_iff.mp h
    cases value with
    | function func reference =>
      cases reference with
      | none =>
        have hall : ∀ o ∈ [{ d.occurrence m name .method with
            declaredType := some TypeDescriptor.function, params := func.paramBindings }],
            o.Declares .method := by
          intro o ho
          obtain rfl := List.mem_singleton.mp ho
          exact ⟨rfl, rfl⟩
        exact ⟨fun o ho => (hall o ho).1, .of_declares hall⟩
      | some ref =>
        constructor
        · intro o ho
          rcases List.mem_pair.mp ho with rfl | rfl <;> rfl
        · intro u hu hr
          rcases List.mem_pair.mp hu with rfl | rfl
          · cases hr
          · exact ⟨_, List.mem_cons_self, rfl, rfl, rfl⟩
    | object members => exact ⟨by simp, by simp [Linked]⟩
    | other => exact ⟨by simp, by simp [Linked]⟩

theorem methods_eq_flatten {d : Definition} {os : List Occurrence} (h : d.methods = .ok os) :
    ∃ members oss, d.sectionMembers "methods" = .ok members ∧ os = oss.flatten ∧
      List.Forall₂ (fun m os => d.methodOccurrences m = .ok os) members oss := by
  obtain ⟨members, hm, h⟩ := bind_eq_ok_iff.mp h
  obtain ⟨oss, ho, h⟩ := bind_eq_ok_iff.mp h
  exact ⟨members, oss, hm, (Except.ok.inj h).symm, mapM_eq_ok_iff.mp ho⟩

theorem methods_eq_ok {d : Definition} {os : List Occurrence} (h : d.methods = .ok os) :
    (∀ o ∈ os, o.kind = .method) ∧ Linked os := by
  obtain ⟨members, found, _, rfl, hf⟩ := methods_eq_flatten h
  have hall : ∀ os ∈ found, (∀ o ∈ os, o.kind = .method) ∧ Linked os := by
    intro os ho
    obtain ⟨m, _, hm⟩ := mem_of_forall₂ hf ho
    exact methodOccurrences_eq_ok hm
  constructor
  · intro o ho
    obtain ⟨os, hos, hm⟩ := List.mem_flatten.mp ho
    exact (hall os hos).1 o hm
  · exact .flatten fun os ho => (hall os ho).2

end Definition

namespace Component

theorem declares_of_mem_slots {c : Component} {o : Occurrence} (ho : o ∈ c.slots) :
    o.Declares .slot := by
  obtain ⟨tag, _, rfl⟩ := List.mem_map.mp ho
  unfold slot
  split <;> exact ⟨rfl, rfl⟩

theorem declares_of_mem_forwardedEvents {c : Component} {o : Occurrence}
    (ho : o ∈ c.forwardedEvents) : o.Declares .event := by
  obtain ⟨os, hos, hm⟩ := List.mem_flatten.mp ho
  obtain ⟨tag, _, rfl⟩ := List.mem_map.mp hos
  obtain ⟨a, _, hf⟩ := List.mem_filterMap.mp hm
  unfold forwarded? at hf
  split at hf
  · split at hf
    · cases hf
    · obtain rfl := Option.some.inj hf
      exact ⟨rfl, rfl⟩
  · cases hf

theorem declares_of_mem_firedEvents {c : Component} {o : Occurrence} (ho : o ∈ c.firedEvents) :
    o.Declares .event := by
  obtain ⟨os, hos, hm⟩ := List.mem_flatten.mp ho
  obtain ⟨tag, _, rfl⟩ := List.mem_map.mp hos
  obtain ⟨os, hos, hm⟩ := List.mem_flatten.mp hm
  obtain ⟨a, _, rfl⟩ := List.mem_map.mp hos
  unfold fired at hm
  split at hm
  · obtain ⟨found, _, rfl⟩ := List.mem_map.mp hm
    exact ⟨rfl, rfl⟩
  · cases hm

theorem declares_of_mem_events {c : Component} {emitter : ScriptBlock → Emitter} {o : Occurrence}
    (ho : o ∈ (c.scripts.map fun s => s.events (emitter s)).flatten) : o.Declares .event := by
  obtain ⟨os, hos, hm⟩ := List.mem_flatten.mp ho
  obtain ⟨script, _, rfl⟩ := List.mem_map.mp hos
  exact ScriptBlock.declares_of_mem_events hm

theorem defined_eq_ok {c : Component} {list : Definition → Except ExtractError (List Occurrence)}
    {os : List Occurrence} (h : c.defined list = .ok os) :
    ∃ ds oss, c.definitions = .ok ds ∧ os = oss.flatten ∧
      List.Forall₂ (fun d os => list d = .ok os) ds oss := by
  obtain ⟨ds, hd, h⟩ := bind_eq_ok_iff.mp h
  obtain ⟨oss, ho, h⟩ := bind_eq_ok_iff.mp h
  exact ⟨ds, oss, hd, (Except.ok.inj h).symm, mapM_eq_ok_iff.mp ho⟩

/-- What holds of the occurrences of each definition object holds of those of all of them. -/
theorem defined_linked {c : Component} {kind : EntityKind}
    {list : Definition → Except ExtractError (List Occurrence)} {os : List Occurrence}
    (hl : ∀ {d os}, list d = .ok os → (∀ o ∈ os, o.kind = kind) ∧ Linked os)
    (h : c.defined list = .ok os) : (∀ o ∈ os, o.kind = kind) ∧ Linked os := by
  obtain ⟨ds, oss, _, rfl, hall⟩ := defined_eq_ok h
  constructor
  · intro o ho
    obtain ⟨os, hos, hm⟩ := List.mem_flatten.mp ho
    obtain ⟨d, _, hd⟩ := mem_of_forall₂ hall hos
    exact (hl hd).1 o hm
  · refine .flatten fun os hos => ?_
    obtain ⟨d, _, hd⟩ := mem_of_forall₂ hall hos
    exact (hl hd).2

theorem declared_linked {c : Component} {kind : EntityKind} {os : List Occurrence}
    (h : c.declared kind = .ok os) : (∀ o ∈ os, o.kind = kind) ∧ Linked os := by
  obtain ⟨found, hf, h⟩ := bind_eq_ok_iff.mp h
  obtain rfl := Except.ok.inj h
  refine ⟨fun o ho => by simpa using (List.mem_filter.mp ho).2, ?_⟩
  refine .filter_kind (.flatten fun os hos => ?_) kind
  obtain ⟨⟨scope, script⟩, _, hr⟩ := mem_of_forall₂ (mapM_eq_ok_iff.mp hf) hos
  exact Facts.resolve_linked (fun d hd => (ScriptBlock.isDeclaration_of_mem_facts hd).role_eq) hr

end Component

/-- The occurrences of a kind are all of that kind, and each use has its declaration among them. -/
theorem Dialect.occurrences_linked {dialect : Dialect} {c : Component} {kind : EntityKind}
    {os : List Occurrence} (h : dialect.occurrences c kind = .ok os) :
    (∀ o ∈ os, o.kind = kind) ∧ Linked os := by
  have declares {kind : EntityKind} {os : List Occurrence} (ho : ∀ o ∈ os, o.Declares kind) :
      (∀ o ∈ os, o.kind = kind) ∧ Linked os := ⟨fun o hm => (ho o hm).1, .of_declares ho⟩
  unfold occurrences at h
  split at h
  · exact Component.defined_linked (fun hd => declares fun o => Definition.declares_of_mem_data hd) h
  · exact Component.defined_linked
      (fun hd => declares fun o => Definition.declares_of_mem_computed hd) h
  · exact Component.defined_linked Definition.methods_eq_ok h
  · obtain rfl := Except.ok.inj h
    refine declares fun o ho => ?_
    rcases List.mem_append.mp ho with hm | hm
    · exact Component.declares_of_mem_events hm
    · exact Component.declares_of_mem_firedEvents hm
  · exact Component.declared_linked h
  · exact Component.declared_linked h
  · exact Component.declared_linked h
  · obtain rfl := Except.ok.inj h
    refine declares fun o ho => ?_
    rcases List.mem_append.mp ho with hm | hm
    · exact Component.declares_of_mem_events hm
    · exact Component.declares_of_mem_forwardedEvents hm
  · obtain rfl := Except.ok.inj h
    exact declares fun o => Component.declares_of_mem_slots

end ComponentDoc
