import ComponentDoc.Proofs.Binding.Linked

/-!
What the top level of a script is linked into, told by its facts alone. The occurrences are the declarations,
of which the first of each name has the value that is assigned to the name last; the imports that exports
stand for, each local name once; the exports; and the computed values.
-/
namespace ComponentDoc

open Script

/-- The local name of what is exported under another one. -/
def ExportedName.renamed? (e : ExportedName) : Option String :=
  if e.localName = e.exported then none else some e.localName

namespace Facts

/-- The first declaration of a name. -/
def FirstDeclaration (facts : Facts) (name : String) (d : Occurrence) : Prop :=
  ∃ before after, facts.declarations = before ++ d :: after ∧ d.name = name ∧ ∀ b ∈ before, b.name ≠ name

/-- The last import that binds a name. -/
def LastImport (facts : Facts) (name : String) (entry : ImportedName) : Prop :=
  ∃ before after, facts.imports = before ++ entry :: after ∧ entry.localName = name ∧
    ∀ b ∈ after, b.localName ≠ name

/-- The last assignment to a name. -/
def LastAssignment (facts : Facts) (name : String) (a : Assignment) : Prop :=
  ∃ before after, facts.assignments = before ++ a :: after ∧ a.target = name ∧ ∀ b ∈ after, b.target ≠ name

/-- An export of an import: it is passed on from no module, and its script imports the name and does not
declare it. -/
def TakesImport (facts : Facts) (e : ExportedName) : Prop :=
  e.source = none ∧ (∀ d ∈ facts.declarations, d.name ≠ e.localName) ∧
    ∃ i ∈ facts.imports, i.localName = e.localName

instance (facts : Facts) (e : ExportedName) : Decidable (facts.TakesImport e) :=
  inferInstanceAs (Decidable (_ ∧ _ ∧ _))

/-- A `$:` assignment to a name that is neither declared nor imported. -/
def Introduces (facts : Facts) (a : Assignment) : Prop :=
  a.isReactive = true ∧ (∀ d ∈ facts.declarations, d.name ≠ a.target) ∧
    ∀ i ∈ facts.imports, i.localName ≠ a.target

instance (facts : Facts) (a : Assignment) : Decidable (facts.Introduces a) :=
  inferInstanceAs (Decidable (_ ∧ _ ∧ _))

/-- A declaration after those before it. Only the first of its name takes a value assigned later. -/
inductive DeclaredAs (facts : Facts) (before : List Occurrence) (d : Occurrence) : Occurrence → Prop
  | again (h : ∃ b ∈ before, b.name = d.name) : DeclaredAs facts before d d
  | assigned (h : ∀ b ∈ before, b.name ≠ d.name) {a : Assignment} (ha : facts.LastAssignment d.name a) :
      DeclaredAs facts before d { d with reassigned := some a.value }
  | kept (h : ∀ b ∈ before, b.name ≠ d.name) (ha : ∀ a ∈ facts.assignments, a.target ≠ d.name) :
      DeclaredAs facts before d d

/-- A local name that is imported and exported, as a private declaration. -/
inductive ImportedAs (facts : Facts) (name : String) : Occurrence → Prop
  | last {entry : ImportedName} (h : facts.LastImport name entry) : ImportedAs facts name
      { id := .imported entry.path entry.sourceName
        name := name
        sourceName := some entry.shownName
        importPath := some entry.path
        kind := .data
        visibility := .priv
        role := .declaration
        ident := entry.ident
        anchors := Occurrence.addAnchors [entry.ident.start] entry.anchors }

/-- An export: of another module's name, of the first declaration, or of the last import. -/
inductive ExportedAs (facts : Facts) (e : ExportedName) : Occurrence → Prop
  | passedOn {path : String} (hs : e.source = some path) : ExportedAs facts e
      { id := .imported path e.localName
        name := e.exported
        sourceName := some e.localName
        importPath := some path
        kind := .data
        visibility := .pub
        role := .declaration
        ident := e.ident
        anchors := Occurrence.addAnchors [e.ident.start] e.anchors }
  | declared (hs : e.source = none) {d : Occurrence} (hd : facts.FirstDeclaration e.localName d) :
      ExportedAs facts e
      { id := d.id
        name := e.exported
        localName := e.renamed?
        kind := d.kind
        visibility := .pub
        isStatic := d.isStatic
        role := .usage
        ident := e.ident
        anchors := Occurrence.addAnchors [e.ident.start] e.anchors }
  | imported (hs : e.source = none) (hd : ∀ d ∈ facts.declarations, d.name ≠ e.localName)
      {entry : ImportedName} (hi : facts.LastImport e.localName entry) : ExportedAs facts e
      { id := .imported entry.path entry.sourceName
        name := e.exported
        localName := e.renamed?
        sourceName := some entry.shownName
        importPath := some entry.path
        kind := .data
        visibility := .pub
        role := .usage
        ident := e.ident
        anchors := Occurrence.addAnchors [e.ident.start] e.anchors }

/-- A `$:` assignment that introduces its target, after those before it, as a private computed value; the first
to a target declares it, and later ones use it. -/
inductive ComputedAs (facts : Facts) (scope : Nat) (before : List Assignment) (a : Assignment) :
    Occurrence → Prop
  | mk (role : Role) (h : role = .usage ↔ ∃ b ∈ before, b.target = a.target) :
      ComputedAs facts scope before a
      { id := .declared scope a.target
        name := a.target
        kind := .computed
        visibility := .priv
        role := role
        ident := a.ident
        anchors := Occurrence.addAnchors [a.ident.start] a.anchors
        init := some a.value
        dependencies := facts.dependencies a }

/-- The occurrences that the top level of a script is linked into. -/
def LinksInto (facts : Facts) (scope : Nat) (os : List Occurrence) : Prop :=
  ∃ declared imported exported computed, os = declared ++ imported ++ exported ++ computed ∧
    InTurn facts.DeclaredAs facts.declarations declared ∧
    List.Forall₂ facts.ImportedAs
      ((facts.exports.filter facts.TakesImport).map ExportedName.localName).eraseDups imported ∧
    List.Forall₂ facts.ExportedAs facts.exports exported ∧
    InTurn (facts.ComputedAs scope) (facts.assignments.filter facts.Introduces) computed

theorem declaration?_eq_some_iff {facts : Facts} {name : String} {d : Occurrence} :
    facts.declaration? name = some d ↔ facts.FirstDeclaration name d := by
  rw [declaration?, List.find?_eq_some_iff_append]
  simp only [FirstDeclaration, beq_iff_eq, Bool.not_eq_true', beq_eq_false_iff_ne]
  constructor
  · rintro ⟨hn, before, after, h, hb⟩
    exact ⟨before, after, h, hn, hb⟩
  · rintro ⟨before, after, h, hn, hb⟩
    exact ⟨hn, before, after, h, hb⟩

theorem FirstDeclaration.mem {facts : Facts} {name : String} {d : Occurrence}
    (h : facts.FirstDeclaration name d) : d ∈ facts.declarations := by
  obtain ⟨before, after, hds, _⟩ := h
  simp [hds]

theorem FirstDeclaration.name_eq {facts : Facts} {name : String} {d : Occurrence}
    (h : facts.FirstDeclaration name d) : d.name = name := by
  obtain ⟨_, _, _, hn, _⟩ := h
  exact hn

theorem declaration?_eq_none_iff {facts : Facts} {name : String} :
    facts.declaration? name = none ↔ ∀ d ∈ facts.declarations, d.name ≠ name := by
  simp [declaration?]

theorem import?_eq_some_iff {facts : Facts} {name : String} {entry : ImportedName} :
    facts.import? name = some entry ↔ facts.LastImport name entry := by
  rw [import?, find?_reverse_eq_some_iff]
  simp only [LastImport, beq_iff_eq]

theorem import?_eq_none_iff {facts : Facts} {name : String} :
    facts.import? name = none ↔ ∀ i ∈ facts.imports, i.localName ≠ name := by
  simp [import?]

theorem lastValue?_eq_some_iff {facts : Facts} {name : String} {value : Expr} :
    facts.lastValue? name = some value ↔ ∃ a, facts.LastAssignment name a ∧ a.value = value := by
  rw [lastValue?, Option.map_eq_some_iff]
  simp only [find?_reverse_eq_some_iff, LastAssignment, beq_iff_eq]

theorem lastValue?_eq_none_iff {facts : Facts} {name : String} :
    facts.lastValue? name = none ↔ ∀ a ∈ facts.assignments, a.target ≠ name := by
  simp [lastValue?]

theorem introduces_iff {facts : Facts} {a : Assignment} :
    facts.introduces a = true ↔ facts.Introduces a := by
  simp [introduces, Introduces, binds, ← declaration?_eq_none_iff, ← import?_eq_none_iff]

theorem declaredAs_iff {facts : Facts} {before : List Occurrence} {d o : Occurrence} :
    facts.DeclaredAs before d o ↔ o = if (before.map Occurrence.name).reverse.contains d.name then d
      else { d with reassigned := (facts.lastValue? d.name).or d.reassigned } := by
  by_cases hb : ∃ b ∈ before, b.name = d.name
  · rw [if_pos (by simpa using hb)]
    constructor
    · intro h
      cases h with
      | again => rfl
      | assigned h => exact absurd hb (by simpa using h)
      | kept h => exact absurd hb (by simpa using h)
    · rintro rfl
      exact .again hb
  · have hfirst : ∀ b ∈ before, b.name ≠ d.name := fun b hm hn => hb ⟨b, hm, hn⟩
    rw [if_neg (by simpa using hb)]
    cases hv : facts.lastValue? d.name with
    | none =>
      have hnone := lastValue?_eq_none_iff.mp hv
      constructor
      · intro h
        cases h with
        | again h => exact absurd h hb
        | assigned _ ha =>
          have hsome := lastValue?_eq_some_iff.mpr ⟨_, ha, rfl⟩
          rw [hv] at hsome
          cases hsome
        | kept => rfl
      · rintro rfl
        exact .kept hfirst hnone
    | some value =>
      obtain ⟨a, ha, rfl⟩ := lastValue?_eq_some_iff.mp hv
      constructor
      · intro h
        cases h with
        | again h => exact absurd h hb
        | assigned _ ha' =>
          have hsome := lastValue?_eq_some_iff.mpr ⟨_, ha', rfl⟩
          rw [← Option.some.inj (hv.symm.trans hsome)]
          rfl
        | kept _ ha' =>
          rw [lastValue?_eq_none_iff.mpr ha'] at hv
          cases hv
      · rintro rfl
        exact .assigned hfirst ha

theorem inTurn_declaredAs_iff {facts : Facts} {ds os : List Occurrence} :
    InTurn facts.DeclaredAs ds os ↔ os = facts.reassigned [] ds :=
  inTurn_iff_eq_scan (fun _ => rfl) (fun _ _ _ => rfl) fun _ _ _ => declaredAs_iff

theorem computedAs_iff {facts : Facts} {scope : Nat} {before : List Assignment} {a : Assignment}
    {o : Occurrence} : facts.ComputedAs scope before a o ↔
      o = { Occurrence.ofName (.declared scope a.target) a.target .computed .priv a.ident a.anchors with
        init := some a.value
        dependencies := facts.dependencies a
        role := if (before.map Assignment.target).reverse.contains a.target then .usage
          else .declaration } := by
  have hmet : (before.map Assignment.target).reverse.contains a.target ↔
      ∃ b ∈ before, b.target = a.target := by simp
  by_cases hb : ∃ b ∈ before, b.target = a.target
  · rw [if_pos (hmet.mpr hb)]
    constructor
    · rintro ⟨role, hrole⟩
      rw [hrole.mpr hb]
      rfl
    · rintro rfl
      exact .mk .usage (iff_of_true rfl hb)
  · rw [if_neg fun h => hb (hmet.mp h)]
    constructor
    · rintro ⟨role, hrole⟩
      cases role with
      | declaration => rfl
      | usage => exact absurd (hrole.mp rfl) hb
    · rintro rfl
      exact .mk .declaration (iff_of_false (by simp) hb)

theorem inTurn_computedAs_iff {facts : Facts} {scope : Nat} {as : List Assignment}
    {os : List Occurrence} : InTurn (facts.ComputedAs scope) as os ↔ os = facts.computedFrom scope [] as :=
  inTurn_iff_eq_scan (fun _ => rfl) (fun _ _ _ => rfl) fun _ _ _ => computedAs_iff

theorem filter_introduces (facts : Facts) (as : List Assignment) :
    as.filter facts.Introduces = as.filter facts.introduces := by
  refine List.filter_congr fun a _ => ?_
  rw [Bool.eq_iff_iff, introduces_iff, decide_eq_true_iff]

theorem exportTarget?_eq_some_iff {facts : Facts} {e : ExportedName} {target : ExportTarget} :
    facts.exportTarget? e = some target ↔ target.IsOf facts e := by
  refine ⟨isOf_of_exportTarget?, fun h => ?_⟩
  unfold exportTarget?
  cases target with
  | passedOn path =>
    have hs : e.source = some path := h
    simp [hs]
  | declared d => simp [h.1, h.2]
  | imported entry => simp [h.1, h.2.1, h.2.2]

theorem exportedAs_iff {facts : Facts} {e : ExportedName} {o : Occurrence} :
    facts.ExportedAs e o ↔ ∃ target, facts.exportTarget? e = some target ∧ o = exportOccurrence e target := by
  have hrenamed : (if e.localName == e.exported then none else some e.localName) = e.renamed? := by
    simp [ExportedName.renamed?]
  simp only [exportTarget?_eq_some_iff]
  constructor
  · intro h
    cases h with
    | passedOn hs => exact ⟨.passedOn _, hs, rfl⟩
    | declared hs hd =>
      refine ⟨.declared _, ⟨hs, declaration?_eq_some_iff.mpr hd⟩, ?_⟩
      rw [exportOccurrence, hrenamed]
      rfl
    | imported hs hd hi =>
      refine ⟨.imported _, ⟨hs, declaration?_eq_none_iff.mpr hd, import?_eq_some_iff.mpr hi⟩, ?_⟩
      rw [exportOccurrence, hrenamed]
      rfl
  · rintro ⟨target, h, rfl⟩
    cases target with
    | passedOn path => exact .passedOn h
    | declared d =>
      rw [exportOccurrence, hrenamed]
      exact .declared h.1 (declaration?_eq_some_iff.mp h.2)
    | imported entry =>
      rw [exportOccurrence, hrenamed]
      exact .imported h.1 (declaration?_eq_none_iff.mp h.2.1) (import?_eq_some_iff.mp h.2.2)

theorem importedAs_iff {facts : Facts} {name : String} {o : Occurrence} :
    facts.ImportedAs name o ↔ ∃ entry, facts.import? name = some entry ∧ o = importOccurrence entry := by
  constructor
  · rintro ⟨h⟩
    have hi := import?_eq_some_iff.mpr h
    refine ⟨_, hi, ?_⟩
    rw [← import?_localName hi]
    rfl
  · rintro ⟨entry, hi, rfl⟩
    obtain rfl := import?_localName hi
    exact .last (import?_eq_some_iff.mp hi)

/-- The distinct imports have the local names in the order in which each is first met. -/
theorem map_localName_distinctImports (seen : List String) (is : List ImportedName) :
    (distinctImports seen is).map ImportedName.localName =
      ((is.map ImportedName.localName).filter fun n => !seen.contains n).eraseDups := by
  induction is generalizing seen with
  | nil => rfl
  | cons i is ih =>
    unfold distinctImports
    by_cases hi : i.localName ∈ seen
    · simp [hi, ih]
    · have hrest : (fun n => !(i.localName :: seen).contains n) =
          fun n => (!n == i.localName) && !seen.contains n := by
        funext n
        rw [List.contains_cons, Bool.not_or]
      rw [if_neg (by simpa using hi), List.map_cons, ih, hrest, List.map_cons,
        List.filter_cons_of_pos (by simpa using hi), List.eraseDups_cons, List.filter_filter]

theorem distinctImports_sublist (seen : List String) (is : List ImportedName) :
    (distinctImports seen is).Sublist is := by
  induction is generalizing seen with
  | nil => exact .slnil
  | cons i is ih =>
    unfold distinctImports
    split_ifs
    · exact (ih seen).cons i
    · exact (ih _).cons_cons i

theorem takesImport_iff {facts : Facts} {e : ExportedName} {target : ExportTarget}
    (h : target.IsOf facts e) : facts.TakesImport e ↔ ∃ entry, target = .imported entry := by
  unfold TakesImport
  rw [← declaration?_eq_none_iff]
  cases target with
  | passedOn path =>
    have hs : e.source = some path := h
    simp [hs]
  | declared d => simp [h.2]
  | imported entry =>
    have hi := List.mem_of_find?_eq_some h.2.2
    simp only [h.1, h.2.1, true_and, ExportTarget.imported.injEq, exists_eq', iff_true]
    exact ⟨entry, List.mem_reverse.mp hi, import?_localName h.2.2⟩

/-- The imports that exports stand for have the local names of these exports. -/
theorem map_localName_imports {facts : Facts} {es : List ExportedName}
    {exports : List (ExportedName × ExportTarget)}
    (h : List.Forall₂ (fun e p => facts.exportTarget e = .ok p) es exports) :
    (exports.filterMap fun p => p.2.import?).map ImportedName.localName =
      (es.filter facts.TakesImport).map ExportedName.localName := by
  induction h with
  | nil => rfl
  | @cons e p es exports he _ ih =>
    obtain ⟨rfl, hof⟩ := exportTarget_eq_ok he
    obtain ⟨e, target⟩ := p
    by_cases ht : facts.TakesImport e
    · obtain ⟨entry, rfl⟩ := (takesImport_iff hof).mp ht
      rw [List.filterMap_cons, List.filter_cons_of_pos (by simpa using ht), List.map_cons, ← ih,
        ← import?_localName hof.2.2]
      rfl
    · have hnone : target.import? = none := by
        cases target with
        | imported entry => exact absurd ((takesImport_iff hof).mpr ⟨entry, rfl⟩) ht
        | _ => rfl
      rw [List.filterMap_cons, hnone, List.filter_cons_of_neg (by simpa using ht), ← ih]

theorem importedAs_distinctImports {facts : Facts} {exports : List (ExportedName × ExportTarget)}
    (h : List.Forall₂ (fun e p => facts.exportTarget e = .ok p) facts.exports exports) :
    List.Forall₂ facts.ImportedAs
      ((facts.exports.filter facts.TakesImport).map ExportedName.localName).eraseDups
      ((distinctImports [] (exports.filterMap fun p => p.2.import?)).map importOccurrence) := by
  have hnames := map_localName_distinctImports [] (exports.filterMap fun p => p.2.import?)
  rw [map_localName_imports h] at hnames
  have hall : (fun n : String => !([] : List String).contains n) = fun _ => true := rfl
  rw [hall, List.filter_true] at hnames
  rw [← hnames, List.forall₂_map_left_iff, List.forall₂_map_right_iff, List.forall₂_same]
  intro i hi
  have hof : ∀ p ∈ exports, p.2.IsOf facts p.1 := by
    intro p hp
    obtain ⟨e, _, he⟩ := mem_of_forall₂ h hp
    obtain ⟨rfl, hof⟩ := exportTarget_eq_ok he
    exact hof
  exact importedAs_iff.mpr
    ⟨i, import?_of_mem_imports hof ((distinctImports_sublist _ _).subset hi), rfl⟩

theorem linksInto_of_resolve {facts : Facts} {scope : Nat} {os : List Occurrence}
    (h : facts.resolve scope = .ok os) : facts.LinksInto scope os := by
  obtain ⟨exports, he, h⟩ := bind_eq_ok_iff.mp h
  have hexports := mapM_eq_ok_iff.mp he
  refine ⟨_, _, _, _, (Except.ok.inj h).symm, inTurn_declaredAs_iff.mpr rfl,
    importedAs_distinctImports hexports, ?_, ?_⟩
  · rw [List.forall₂_map_right_iff]
    refine hexports.imp fun e p hp => ?_
    obtain ⟨rfl, hof⟩ := exportTarget_eq_ok hp
    exact exportedAs_iff.mpr ⟨p.2, exportTarget?_eq_some_iff.mpr hof, rfl⟩
  · rw [filter_introduces]
    exact inTurn_computedAs_iff.mpr rfl

theorem LinksInto.unique {facts : Facts} {scope : Nat} {os os' : List Occurrence}
    (h : facts.LinksInto scope os) (h' : facts.LinksInto scope os') : os = os' := by
  obtain ⟨declared, imported, exported, computed, rfl, hd, hi, he, hc⟩ := h
  obtain ⟨declared', imported', exported', computed', rfl, hd', hi', he', hc'⟩ := h'
  obtain rfl : imported = imported' := by
    refine List.right_unique_forall₂' (fun name o o' ho ho' => ?_) hi hi'
    obtain ⟨entry, hentry, rfl⟩ := importedAs_iff.mp ho
    obtain ⟨entry', hentry', rfl⟩ := importedAs_iff.mp ho'
    rw [Option.some.inj (hentry.symm.trans hentry')]
  obtain rfl : exported = exported' := by
    refine List.right_unique_forall₂' (fun e o o' ho ho' => ?_) he he'
    obtain ⟨target, htarget, rfl⟩ := exportedAs_iff.mp ho
    obtain ⟨target', htarget', rfl⟩ := exportedAs_iff.mp ho'
    rw [Option.some.inj (htarget.symm.trans htarget')]
  rw [inTurn_declaredAs_iff.mp hd, inTurn_declaredAs_iff.mp hd', inTurn_computedAs_iff.mp hc,
    inTurn_computedAs_iff.mp hc']

/-- Where an occurrence of a linked top level comes from. -/
inductive Records (facts : Facts) (scope : Nat) : Occurrence → Prop
  | declared {d : Occurrence} (hd : d ∈ facts.declarations) (value : Option Expr) :
      Records facts scope { d with reassigned := value }
  | imported {e : ExportedName} {o : Occurrence} (he : e ∈ facts.exports) (ht : facts.TakesImport e)
      (ho : facts.ImportedAs e.localName o) : Records facts scope o
  | exported {e : ExportedName} {o : Occurrence} (he : e ∈ facts.exports) (ho : facts.ExportedAs e o) :
      Records facts scope o
  | computed {a : Assignment} {before : List Assignment} {o : Occurrence} (ha : a ∈ facts.assignments)
      (hi : facts.Introduces a) (ho : facts.ComputedAs scope before a o) : Records facts scope o

theorem records_of_mem {facts : Facts} {scope : Nat} {os : List Occurrence}
    (h : facts.resolve scope = .ok os) {o : Occurrence} (ho : o ∈ os) : facts.Records scope o := by
  obtain ⟨declared, imported, exported, computed, rfl, hd, hi, he, hc⟩ := linksInto_of_resolve h
  simp only [List.mem_append] at ho
  rcases ho with ((ho | ho) | ho) | ho
  · rw [inTurn_declaredAs_iff.mp hd] at ho
    obtain ⟨d, hm, heq⟩ := mem_of_forall₂ (facts.reassigned_forall₂ [] facts.declarations) ho
    rw [heq]
    exact .declared hm o.reassigned
  · obtain ⟨name, hn, himported⟩ := mem_of_forall₂ hi ho
    obtain ⟨e, hm, rfl⟩ := List.mem_map.mp (List.mem_eraseDups.mp hn)
    obtain ⟨hm, ht⟩ := List.mem_filter.mp hm
    exact .imported hm (by simpa using ht) himported
  · obtain ⟨e, hm, hexported⟩ := mem_of_forall₂ he ho
    exact .exported hm hexported
  · obtain ⟨a, hm, before, hcomputed⟩ := hc.exists_left ho
    obtain ⟨hm, hintroduces⟩ := List.mem_filter.mp hm
    exact .computed hm (by simpa using hintroduces) hcomputed

theorem exists_mem_exportedAs {facts : Facts} {scope : Nat} {os : List Occurrence}
    (h : facts.resolve scope = .ok os) {e : ExportedName} (he : e ∈ facts.exports) :
    ∃ o ∈ os, facts.ExportedAs e o := by
  obtain ⟨declared, imported, exported, computed, rfl, _, _, hexported, _⟩ := linksInto_of_resolve h
  obtain ⟨o, ho, hof⟩ := mem_of_forall₂_left hexported he
  exact ⟨o, by simp [ho], hof⟩

theorem exists_mem_computedAs {facts : Facts} {scope : Nat} {os : List Occurrence}
    (h : facts.resolve scope = .ok os) {a : Assignment} (ha : a ∈ facts.assignments)
    (hi : facts.Introduces a) : ∃ o ∈ os, ∃ before, facts.ComputedAs scope before a o := by
  obtain ⟨declared, imported, exported, computed, rfl, _, _, _, hcomputed⟩ := linksInto_of_resolve h
  obtain ⟨o, ho, before, hof⟩ := hcomputed.exists_right (List.mem_filter.mpr ⟨ha, by simpa using hi⟩)
  exact ⟨o, by simp [ho], before, hof⟩

/-- Linking the top level of a script gives these occurrences and no others, and gives none if an export
cannot be recorded. -/
theorem resolve_eq_ok_iff_linksInto (facts : Facts) (scope : Nat) (os : List Occurrence) :
    facts.resolve scope = .ok os ↔ facts.LinksInto scope os := by
  refine ⟨linksInto_of_resolve, fun h => ?_⟩
  have hsome : ∀ e ∈ facts.exports, ∃ p, facts.exportTarget e = .ok p := by
    intro e he
    obtain ⟨_, _, _, _, _, _, _, hexported, _⟩ := h
    obtain ⟨o, _, ho⟩ := mem_of_forall₂_left hexported he
    obtain ⟨target, ht, _⟩ := exportedAs_iff.mp ho
    exact ⟨(e, target), by rw [exportTarget, ht]⟩
  obtain ⟨exports, hexports⟩ := exists_mapM_eq_ok_iff.mpr hsome
  obtain ⟨os', hos⟩ : ∃ os', facts.resolve scope = .ok os' := ⟨_, bind_eq_ok_iff.mpr ⟨exports, hexports, rfl⟩⟩
  rw [hos, h.unique (linksInto_of_resolve hos)]

end Facts

end ComponentDoc
