import ComponentDoc.Proofs.Binding.Methods
import ComponentDoc.Proofs.Document.Declaration

namespace ComponentDoc

open Text Script

/-- The occurrence that an entity is called by: the first use of its identity in the file, or else its
declaration `d`. -/
def shownBy (os : List Occurrence) (id : Identity) (d : Occurrence) : Occurrence :=
  (sortOccurrences (usesOf id os)).head?.getD d

/-- An entity with the names that the occurrences of its identity give it. -/
def NamedBy (os : List Occurrence) (id : Identity) (e : Entity) : Prop :=
  ∃ d ∈ os, d.id = id ∧ d.role = .declaration ∧ e.name = (shownBy os id d).name ∧
    e.localName.getD e.name = (shownBy os id d).localName.getD d.name

theorem shownBy_eq {os : List Occurrence} {id : Identity} (hu : usesOf id os ≠ []) (d d' : Occurrence) :
    shownBy os id d = shownBy os id d' := by
  obtain ⟨u, hhead⟩ := exists_head?_sortOccurrences hu
  rw [shownBy, shownBy, hhead, Option.getD_some, Option.getD_some]

section

variable {dialect : Dialect} {locate : Span → Option Location} {os : List Occurrence} {fs : List Finding}
  (h : List.Forall₂ (Finding.IsOf dialect locate) (sortOccurrences os) fs)
include h

/-- The first use among the findings of an identity is that of its first use in the file. -/
theorem isOf_shownBy (id : Identity) {d : Occurrence} {primary : Finding}
    (hd : primary.IsOf dialect locate d) :
    (((Finding.ofId id fs).find? (·.role == .usage)).getD primary).IsOf dialect locate
      (shownBy os id d) := by
  have huses : List.Forall₂ (Finding.IsOf dialect locate) (sortOccurrences (usesOf id os))
      ((Finding.ofId id fs).filter (·.role == .usage)) := by
    rw [Finding.ofId, List.filter_filter, usesOf, ← filter_sortOccurrences]
    refine forall₂_filter h fun hof => ?_
    rw [hof.id_eq, hof.role_eq, Bool.and_comm]
  rw [← List.head?_filter, shownBy]
  generalize sortOccurrences (usesOf id os) = uses at huses ⊢
  generalize (Finding.ofId id fs).filter (·.role == .usage) = found at huses ⊢
  cases huses with
  | nil => exact hd
  | cons hof _ => exact hof

theorem namedBy_of_entity? {withLocations : Bool} (hl : Linked os) {id : Identity}
    (hid : id ∈ fs.map Finding.id) {e : Entity}
    (he : Finding.entity? withLocations (Finding.ofId id fs) = some e) : NamedBy os id e := by
  obtain ⟨primary, rest, hsort, rfl⟩ := Finding.entity?_eq_some_iff.mp he
  obtain ⟨g, hg, hrole⟩ := exists_declaration_ofId (sortOccurrences_perm os) hl h hid
  have hprimary := (Finding.head_of_declaration hsort hg hrole).1
  obtain ⟨hm, hpid⟩ := List.mem_filter.mp ((Finding.mem_of_mergeSort_eq hsort).mp List.mem_cons_self)
  obtain ⟨d, hd, hof⟩ := mem_of_forall₂ h hm
  have hdid : d.id = id := by
    rw [← hof.id_eq]
    simpa using hpid
  have hpos : (Finding.ofId id fs).Pairwise fun a b => a.position ≤ b.position :=
    (pairwise_position h (sortOccurrences_pairwise os)).filter _
  obtain ⟨hname, hlocal⟩ := Finding.merge_names withLocations hpos hsort
  have hshown := isOf_shownBy h id hof
  refine ⟨d, (sortOccurrences_perm os).mem_iff.mp hd, hdid, hof.role_eq ▸ hprimary, ?_, ?_⟩
  · rw [hname, ← hshown.name_eq]
  · rw [hlocal, ← hshown.localName_eq, hof.name_eq]

end

/-- With nothing ignored, each identity that occurs has an entity, named by its occurrences. -/
theorem entities_named {c : Component} {options : Options} {dialect : Dialect} {doc : Document}
    (hd : options.dialect c = .ok dialect) (h : extract c options = .ok doc)
    (hi : options.ignoredVisibilities = []) {kind : EntityKind} (hk : kind ∈ options.kinds) :
    ∃ os, dialect.occurrences c kind = .ok os ∧
      (∀ o ∈ os, ∃ e ∈ doc.entities kind, NamedBy os o.id e) ∧
      ∀ e ∈ doc.entities kind, ∃ o ∈ os, NamedBy os o.id e := by
  obtain ⟨dialect', found, hd', hf, hentities⟩ := extract_eq_ok h
  obtain rfl : dialect = dialect' := Except.ok.inj (hd.symm.trans hd')
  obtain ⟨os, hos, hall⟩ := c.findings_of_sorted hf hk
  have hl := (Dialect.occurrences_linked hos).2
  rw [hentities, Options.entities_of_mem hk, hi]
  refine ⟨os, hos, fun o ho => ?_, fun e he => ?_⟩
  · obtain ⟨f, hm, hof⟩ := mem_of_forall₂_left hall ((sortOccurrences_perm os).mem_iff.mpr ho)
    have hid : o.id ∈ (found.filter (·.kind == kind)).map Finding.id :=
      List.mem_map.mpr ⟨f, hm, hof.id_eq⟩
    obtain ⟨e, he⟩ := Finding.exists_entity? options.withLocations (Finding.ofId_ne_nil hid)
    refine ⟨e, Finding.mem_assemble.mpr ⟨⟨o.id, hid, he⟩, List.not_mem_nil⟩, ?_⟩
    exact namedBy_of_entity? hall hl hid he
  · obtain ⟨⟨id, hid, he⟩, _⟩ := Finding.mem_assemble.mp he
    have hnamed := namedBy_of_entity? hall hl hid he
    have ⟨o, ho, hoid, _⟩ := hnamed
    exact ⟨o, ho, hoid ▸ hnamed⟩

namespace Definition

/-- The use that comes first in the file is that of the member whose key stands first. -/
theorem head?_sortOccurrences_use {d : Definition} {members : List Member} {f : String} {o : Occurrence} :
    (sortOccurrences (members.filterMap (d.use? f))).head? = some o ↔
      ∃ m name, d.IsFirstReference members f m name ∧ d.use f m name = o := by
  unfold sortOccurrences
  rw [head?_mergeSort_ble_iff fun o : Occurrence => o.ident.start]
  constructor
  · rintro ⟨uses, uses', heq, hbefore, hafter⟩
    obtain ⟨before, rest, rfl, rfl, hrest⟩ := List.filterMap_eq_append_iff.mp heq
    obtain ⟨between, m, after, rfl, hnone, hm, rfl⟩ := List.filterMap_eq_cons_iff.mp hrest
    obtain ⟨name, hmethod, rfl⟩ := use?_eq_some_iff.mp hm
    refine ⟨m, name, ⟨hmethod, before ++ between, after, by simp, ?_, ?_⟩, rfl⟩
    · intro m' hm' name' hmethod'
      have hsome := use?_of_isMethod hmethod'
      rcases List.mem_append.mp hm' with hm' | hm'
      · exact hbefore _ (List.mem_filterMap.mpr ⟨m', hm', hsome⟩)
      · rw [hnone m' hm'] at hsome
        cases hsome
    · intro m' hm' name' hmethod'
      exact hafter _ (List.mem_filterMap.mpr ⟨m', hm', use?_of_isMethod hmethod'⟩)
  · rintro ⟨m, name, ⟨hmethod, before, after, rfl, hbefore, hafter⟩, rfl⟩
    refine ⟨before.filterMap (d.use? f), after.filterMap (d.use? f), ?_, ?_, ?_⟩
    · rw [List.filterMap_append, List.filterMap_cons_some (use?_of_isMethod hmethod)]
    · intro o ho
      obtain ⟨m', hm', ho⟩ := List.mem_filterMap.mp ho
      obtain ⟨name', hmethod', rfl⟩ := use?_eq_some_iff.mp ho
      exact hbefore m' hm' name' hmethod'
    · intro o ho
      obtain ⟨m', hm', ho⟩ := List.mem_filterMap.mp ho
      obtain ⟨name', hmethod', rfl⟩ := use?_eq_some_iff.mp ho
      exact hafter m' hm' name' hmethod'

/-- Of members that refer to a function, one is the first. -/
theorem exists_isFirstReference {d : Definition} {members : List Member} {m : Member} {name f : String}
    (hm : m ∈ members) (h : d.IsMethod m name (some f)) :
    ∃ first shown, d.IsFirstReference members f first shown := by
  have huse : d.use f m name ∈ members.filterMap (d.use? f) :=
    List.mem_filterMap.mpr ⟨m, hm, use?_of_isMethod h⟩
  obtain ⟨o, hhead⟩ := exists_head?_sortOccurrences (List.ne_nil_of_mem huse)
  obtain ⟨first, shown, hfirst, _⟩ := head?_sortOccurrences_use.mp hhead
  exact ⟨first, shown, hfirst⟩

end Definition

section

variable {c : Component} {os : List Occurrence} (h : c.defined Definition.methods = .ok os)
  {ds : List Definition} (hds : c.definitions = .ok ds)
include h hds

/-- A method with a function of its own is called by its name. -/
theorem NamedBy.name_of_member {name : String} {e : Entity} (he : NamedBy os (.member name) e) :
    e.name = name := by
  have hnone : usesOf (.member name) os = [] := by
    rw [List.eq_nil_iff_forall_not_mem]
    intro u hu
    obtain ⟨hm, hid, hr⟩ := mem_usesOf.mp hu
    obtain ⟨d, _, _, _, m, _, name', source, _, hid', _, hsource⟩ := c.exists_isMethod_of_mem h hds hm
    cases source with
    | none => exact hsource hr rfl
    | some f => cases hid'.symm.trans hid
  obtain ⟨o, ho, hid, hr, hname, _⟩ := he
  obtain ⟨d, _, _, _, m, _, name', source, _, hid', hdecl, _⟩ := c.exists_isMethod_of_mem h hds ho
  have hshown : shownBy os (.member name) o = o := by
    rw [shownBy, hnone, sortOccurrences, List.mergeSort_nil]
    rfl
  rw [hname, hshown, hdecl hr]
  cases source with
  | none => exact Identity.member.inj (hid'.symm.trans hid)
  | some f => cases hid'.symm.trans hid

/-- A method that refers to a function is called by the member that does so first, and keeps the name of the
function as its local name. -/
theorem NamedBy.names_of_declared {d : Definition} (hd : d ∈ ds) {members : List Member}
    (hm : d.sectionMembers "methods" = .ok members) {f name : String} {m : Member}
    (hf : d.IsFirstReference members f m name) {e : Entity}
    (he : NamedBy os (.declared d.scope f) e) : e.name = name ∧ e.localName.getD e.name = f := by
  obtain ⟨o, ho, hid, hr, hname, hlocal⟩ := he
  have hshown : shownBy os (.declared d.scope f) o = d.use f m name := by
    rw [shownBy, Component.usesOf_defined h hds hd hm,
      Definition.head?_sortOccurrences_use.mpr ⟨m, name, hf, rfl⟩]
    rfl
  obtain ⟨d', _, _, _, m', _, name', source, _, hid', hdecl, _⟩ := c.exists_isMethod_of_mem h hds ho
  have hof : o.name = f := by
    rw [hdecl hr]
    cases source with
    | none => cases hid'.symm.trans hid
    | some g => exact (Identity.declared.inj (hid'.symm.trans hid)).2
  rw [hshown] at hname hlocal
  exact ⟨hname, hlocal.trans hof⟩

end

/-- How the members of the `methods` of a definition object are listed: one with a function of its own under
its name, and those that refer to a function of the top level under the name of the first of them. -/
structure Definition.ListsMethods (d : Definition) (members : List Member) (entities : List Entity) :
    Prop where
  own : ∀ m ∈ members, ∀ name, d.IsMethod m name none → ∃ e ∈ entities, e.name = name
  first : ∀ f m name, d.IsFirstReference members f m name →
    ∃ e ∈ entities, e.name = name ∧ e.localName.getD e.name = f
  reaches : ∀ m ∈ members, ∀ name f, d.IsMethod m name (some f) →
    ∃ first shown, d.IsFirstReference members f first shown

/-- No function of the methods of a definition object is lost, if nothing is ignored; of the names that one
function is listed under, the first in the file is kept. Nothing else is listed. -/
theorem methods_named_by_first_reference {c : Component} {options : Options} {doc : Document}
    (hd : options.dialect c = .ok .v2) (hf : Feature.methods ∈ options.features)
    (hi : options.ignoredVisibilities = []) (h : extract c options = .ok doc) :
    ∃ ds, c.definitions = .ok ds ∧
      (∀ d ∈ ds, ∃ members, d.sectionMembers "methods" = .ok members ∧
        d.ListsMethods members (doc.entities .method)) ∧
      ∀ e ∈ doc.entities .method, ∃ d ∈ ds, ∃ members, d.sectionMembers "methods" = .ok members ∧
        ∃ m ∈ members, d.IsMethod m e.name none ∨ ∃ f, d.IsFirstReference members f m e.name := by
  have hk : EntityKind.method ∈ options.kinds := Options.mem_kinds.mpr ⟨.methods, hf, rfl⟩
  obtain ⟨os, hos, hlisted, hentity⟩ := entities_named hd h hi hk
  obtain ⟨ds, oss, hds, _, hall⟩ := Component.defined_eq_ok hos
  refine ⟨ds, hds, fun d hd => ?_, fun e he => ?_⟩
  · obtain ⟨_, _, hmethods⟩ := mem_of_forall₂_left hall hd
    obtain ⟨members, _, hm, _⟩ := Definition.methods_eq_flatten hmethods
    have hmem {m : Member} (hin : m ∈ members) {name : String} {source : Option String}
        (hmethod : d.IsMethod m name source) :
        ∃ e ∈ doc.entities .method, NamedBy os (d.methodId name source) e := by
      obtain ⟨o, ho, hid⟩ := c.exists_mem_of_isMethod hos hds hd hm hin hmethod
      rw [← hid]
      exact hlisted o ho
    refine ⟨members, hm, ?_, ?_, ?_⟩
    · intro m hin name hmethod
      obtain ⟨e, he, hnamed⟩ := hmem hin hmethod
      exact ⟨e, he, hnamed.name_of_member hos hds⟩
    · intro f m name hfirst
      obtain ⟨e, he, hnamed⟩ := hmem hfirst.mem hfirst.1
      exact ⟨e, he, hnamed.names_of_declared hos hds hd hm hfirst⟩
    · intro m hin name f hmethod
      exact Definition.exists_isFirstReference hin hmethod
  · obtain ⟨o, ho, hnamed⟩ := hentity e he
    obtain ⟨d, hd, members, hm, m, hin, name, source, hmethod, hid, _⟩ :=
      c.exists_isMethod_of_mem hos hds ho
    rw [hid] at hnamed
    refine ⟨d, hd, members, hm, ?_⟩
    cases source with
    | none =>
      obtain rfl := hnamed.name_of_member hos hds
      exact ⟨m, hin, .inl hmethod⟩
    | some f =>
      obtain ⟨first, shown, hfirst⟩ := Definition.exists_isFirstReference hin hmethod
      obtain ⟨rfl, _⟩ := hnamed.names_of_declared hos hds hd hm hfirst
      exact ⟨first, hfirst.mem, .inr ⟨f, hfirst⟩⟩

def aliasedSource : List Char :=
  "<script>function f()\x7b\x7dexport default\x7bmethods:\x7ba:f,b:f\x7d\x7d</script>".toList

def allMethods : Options where
  features := [.methods]
  ignoredVisibilities := []

/-- The names under which the definition objects list a function of the top level. -/
def Component.namesFor (c : Component) (f : String) : List String :=
  (c.definitions.toOption.getD []).flatMap fun d =>
    ((d.sectionMembers "methods").toOption.getD []).filterMap (d.nameFor? f)

theorem Component.exists_isMethod_of_mem_namesFor {c : Component} {f name : String}
    (h : name ∈ c.namesFor f) : ∃ ds, c.definitions = .ok ds ∧ ∃ d ∈ ds, ∃ members,
      d.sectionMembers "methods" = .ok members ∧ ∃ m ∈ members, d.IsMethod m name (some f) := by
  obtain ⟨d, hd, hname⟩ := List.mem_flatMap.mp h
  obtain ⟨m, hm, hname⟩ := List.mem_filterMap.mp hname
  obtain ⟨ds, hds, hd⟩ := exists_ok_of_mem hd
  obtain ⟨members, hmembers, hm⟩ := exists_ok_of_mem hm
  exact ⟨ds, hds, d, hd, members, hmembers, m, hm, Definition.nameFor?_eq_some_iff.mp hname⟩

/-- The function `f` is listed under two names, and all methods that occur are this function. -/
theorem exists_aliased : ∃ c os doc, Component.parse aliasedSource none = .ok c ∧
    allMethods.dialect c = .ok .v2 ∧ extract c allMethods = .ok doc ∧ c.namesFor "f" = ["a", "b"] ∧
    c.defined Definition.methods = .ok os ∧ (∀ o ∈ os, o.id = .declared 0 "f") ∧
    ∃ o ∈ os, o.role = .usage := by
  have hc : (Component.parse aliasedSource none).toOption.map (fun c => (Dialect.detect c, c.namesFor "f",
      (c.defined Definition.methods).toOption.map fun os =>
        (os.all (·.id == .declared 0 "f"), os.any (·.role == .usage)))) =
      some (.v2, ["a", "b"], some (true, true)) := by
    decide +kernel
  obtain ⟨c, hparse, hall⟩ := Option.map_eq_some_iff.mp hc
  obtain ⟨hdialect, hall⟩ := Prod.mk.inj hall
  obtain ⟨hnames, hos⟩ := Prod.mk.inj hall
  obtain ⟨os, hos, hocc⟩ := Option.map_eq_some_iff.mp hos
  obtain ⟨hids, huse⟩ := Prod.mk.inj hocc
  rw [toOption_eq_some_iff] at hparse hos
  have hd : allMethods.dialect c = .ok .v2 := congrArg Except.ok hdialect
  obtain ⟨doc, hdoc⟩ : ∃ doc, extract c allMethods = .ok doc := by
    refine exists_extract_eq_ok_iff.mpr ⟨.v2, [os], hd, ?_⟩
    exact mapM_eq_ok_iff.mpr (.cons hos .nil)
  exact ⟨c, os, doc, hparse, hd, hdoc, hnames, hos, by simpa using hids, by simpa using huse⟩

/-- The function that two members refer to is listed by the first. -/
theorem methods_named_by_first_reference_aliased : ∃ c doc, Component.parse aliasedSource none = .ok c ∧
    allMethods.dialect c = .ok .v2 ∧ Feature.methods ∈ allMethods.features ∧
    allMethods.ignoredVisibilities = [] ∧ extract c allMethods = .ok doc ∧ c.namesFor "f" = ["a", "b"] ∧
    ∃ ds, c.definitions = .ok ds ∧
      (∀ d ∈ ds, ∃ members, d.sectionMembers "methods" = .ok members ∧
        d.ListsMethods members (doc.entities .method)) ∧
      ∀ e ∈ doc.entities .method, ∃ d ∈ ds, ∃ members, d.sectionMembers "methods" = .ok members ∧
        ∃ m ∈ members, d.IsMethod m e.name none ∨ ∃ f, d.IsFirstReference members f m e.name := by
  obtain ⟨c, _, doc, hparse, hd, hdoc, hnames, _⟩ := exists_aliased
  have hf : Feature.methods ∈ allMethods.features := List.mem_singleton_self _
  exact ⟨c, doc, hparse, hd, hf, rfl, hdoc, hnames, methods_named_by_first_reference hd hf rfl hdoc⟩

/-- A member that refers to a function does not always give its name to a method. -/
theorem second_name_not_listed :
    ¬ ∀ source path c options doc ds, Component.parse source path = .ok c →
      options.dialect c = .ok .v2 → Feature.methods ∈ options.features →
      options.ignoredVisibilities = [] → extract c options = .ok doc → c.definitions = .ok ds →
      ∀ d ∈ ds, ∀ members, d.sectionMembers "methods" = .ok members → ∀ m ∈ members,
        ∀ name reference, d.IsMethod m name reference → ∃ e ∈ doc.entities .method, e.name = name := by
  intro hall
  obtain ⟨c, os, doc, hparse, hd, hdoc, hnames, hos, hids, u, hu, hr⟩ := exists_aliased
  have hf : Feature.methods ∈ allMethods.features := List.mem_singleton_self _
  have hk : EntityKind.method ∈ allMethods.kinds := by decide
  obtain ⟨os', hos', _, hentity⟩ := entities_named hd hdoc rfl hk
  obtain rfl : os' = os := Except.ok.inj (hos'.symm.trans hos)
  have hnamed (name : String) (hin : name ∈ c.namesFor "f") :
      ∃ e, e.name = name ∧ NamedBy os' (.declared 0 "f") e := by
    obtain ⟨ds, hds, d, hdin, members, hm, m, hmin, hmethod⟩ :=
      Component.exists_isMethod_of_mem_namesFor hin
    obtain ⟨e, he, hname⟩ := hall aliasedSource none c allMethods doc ds hparse hd hf rfl hdoc hds
      d hdin members hm m hmin name _ hmethod
    obtain ⟨o, ho, hnamed⟩ := hentity e he
    rw [hids o ho] at hnamed
    exact ⟨e, hname, hnamed⟩
  -- Both names would be that of the first use.
  obtain ⟨e, ha, d, _, _, _, hname, _⟩ := hnamed "a" (by simp [hnames])
  obtain ⟨e', hb, d', _, _, _, hname', _⟩ := hnamed "b" (by simp [hnames])
  have huses : usesOf (.declared 0 "f") os' ≠ [] :=
    List.ne_nil_of_mem (mem_usesOf.mpr ⟨hu, hids u hu, hr⟩)
  rw [ha, shownBy_eq huses d d', ← hname', hb] at hname
  exact absurd hname (by decide)

end ComponentDoc
