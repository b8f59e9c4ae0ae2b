import ComponentDoc.Proofs.Document.Findings

namespace ComponentDoc

open Script

namespace Facts

/-- An exported name that stands for nothing: it is passed on from no module, and its script neither
declares nor imports it. -/
def Dangling (facts : Facts) (e : ExportedName) : Prop :=
  e.source = none ∧ (∀ d ∈ facts.declarations, d.name ≠ e.localName) ∧
    ∀ i ∈ facts.imports, i.localName ≠ e.localName

instance (facts : Facts) (e : ExportedName) : Decidable (facts.Dangling e) :=
  inferInstanceAs (Decidable (_ ∧ _ ∧ _))

theorem exportTarget?_eq_none_iff {facts : Facts} {e : ExportedName} :
    facts.exportTarget? e = none ↔ facts.Dangling e := by
  unfold exportTarget? Dangling
  cases hs : e.source with
  | some path => simp
  | none =>
    cases hd : facts.declaration? e.localName with
    | some d =>
      have hm := List.mem_of_find?_eq_some hd
      have hn : d.name = e.localName := by simpa using List.find?_some hd
      simp only [reduceCtorEq, true_and, false_iff, not_and]
      intro hall
      exact absurd hn (hall d hm)
    | none =>
      have hd' : ∀ d ∈ facts.declarations, d.name ≠ e.localName := by simpa [declaration?] using hd
      have hi : (facts.import? e.localName).map ExportTarget.imported = none ↔
          ∀ i ∈ facts.imports, i.localName ≠ e.localName := by simp [import?]
      rw [hi]
      exact ⟨fun h => ⟨rfl, hd', h⟩, fun h => h.2.2⟩

theorem errorOf?_exportTarget (facts : Facts) (e : ExportedName) :
    errorOf? (facts.exportTarget e) =
      if facts.Dangling e then some (.unresolvedReference e.localName) else none := by
  unfold exportTarget
  cases ht : facts.exportTarget? e with
  | none => rw [if_pos (exportTarget?_eq_none_iff.mp ht)]; rfl
  | some target =>
    have hn : ¬ facts.Dangling e := by
      rw [← exportTarget?_eq_none_iff, ht]
      simp
    rw [if_neg hn]
    rfl

/-- The first of the exports that stands for nothing. -/
def dangling? (facts : Facts) : Option ExportedName :=
  facts.exports.find? facts.Dangling

theorem errorOf?_resolve (facts : Facts) (scope : Nat) :
    errorOf? (facts.resolve scope) =
      facts.dangling?.map fun e => .unresolvedReference e.localName := by
  unfold resolve dangling?
  rw [errorOf?_bind (fun _ => rfl), errorOf?_mapM]
  induction facts.exports with
  | nil => rfl
  | cons e es ih =>
    rw [List.findSome?_cons, errorOf?_exportTarget, List.find?_cons]
    by_cases hd : facts.Dangling e
    · simp [hd]
    · simp [hd, ih]

end Facts

/-- The first export that stands for nothing, in the first script that has one. -/
def Component.dangling? (c : Component) : Option ExportedName :=
  c.scopes.findSome? fun (scope, script) => (script.facts scope).dangling?

theorem Component.dangling?_isSome_iff {c : Component} : c.dangling?.isSome ↔
    ∃ p ∈ c.scopes, ∃ e ∈ (p.2.facts p.1).exports, (p.2.facts p.1).Dangling e := by
  simp [dangling?, Facts.dangling?]

theorem Component.errorOf?_declared (c : Component) (kind : EntityKind) :
    errorOf? (c.declared kind) =
      c.dangling?.map fun e => .unresolvedReference e.localName := by
  unfold declared dangling?
  rw [errorOf?_bind (fun _ => rfl), errorOf?_mapM, List.map_findSome?]
  congr 1
  funext p
  exact Facts.errorOf?_resolve _ _

/-- The kinds that the scripts of a component of the third version are linked for. -/
def EntityKind.isLinked : EntityKind → Bool
  | .data | .computed | .method => true
  | .event | .slot => false

theorem Dialect.errorOf?_occurrences_v3 (c : Component) (kind : EntityKind) :
    errorOf? (Dialect.v3.occurrences c kind) =
      if kind.isLinked then c.dangling?.map fun e => .unresolvedReference e.localName else none := by
  cases kind with
  | data => exact c.errorOf?_declared .data
  | computed => exact c.errorOf?_declared .computed
  | method => exact c.errorOf?_declared .method
  | event => rfl
  | slot => rfl

/-- A kind that scripts are linked for is asked for. -/
def Options.AsksForLinked (options : Options) : Prop :=
  .data ∈ options.features ∨ .computed ∈ options.features ∨ .methods ∈ options.features

instance (options : Options) : Decidable options.AsksForLinked :=
  inferInstanceAs (Decidable (_ ∨ _ ∨ _))

theorem Options.asksForLinked_iff {options : Options} :
    options.AsksForLinked ↔ ∃ kind ∈ options.kinds, kind.isLinked := by
  simp only [mem_kinds]
  constructor
  · rintro (h | h | h)
    · exact ⟨.data, ⟨_, h, rfl⟩, rfl⟩
    · exact ⟨.computed, ⟨_, h, rfl⟩, rfl⟩
    · exact ⟨.method, ⟨_, h, rfl⟩, rfl⟩
  · rintro ⟨kind, ⟨f, hf, hk⟩, hl⟩
    unfold AsksForLinked
    cases f <;> cases hk <;> simp_all [EntityKind.isLinked]

theorem errorOf?_extract_v3 {c : Component} {options : Options}
    (hd : options.dialect c = .ok .v3) : errorOf? (extract c options) =
      options.kinds.findSome? fun kind => errorOf? (Dialect.v3.occurrences c kind) := by
  unfold extract Component.findings
  rw [hd, ← errorOf?_mapM]
  change errorOf? ((options.kinds.mapM (Dialect.v3.occurrences c) >>= _) >>= _) = _
  rw [errorOf?_bind fun _ => rfl, errorOf?_bind fun _ => rfl]

theorem extract_v3_eq_error_iff {c : Component} {options : Options}
    (hd : options.dialect c = .ok .v3) {err : ExtractError} : extract c options = .error err ↔
      options.AsksForLinked ∧ ∃ e, c.dangling? = some e ∧ err = .unresolvedReference e.localName := by
  rw [← errorOf?_eq_some_iff, errorOf?_extract_v3 hd]
  -- All kinds that are linked fail with one error, so it does not count which of them comes first.
  simp only [Dialect.errorOf?_occurrences_v3, findSome?_ite]
  rw [Options.asksForLinked_iff, ← List.any_eq_true]
  split_ifs with ha
  · simp [ha, eq_comm]
  · simp [ha]

/-- Whether the entry of an export list is about a type alone. -/
def Script.ExportSpecifier.isTypeOnly : ExportSpecifier → Bool
  | .member _ _ _ typeOnly => typeOnly
  | .namespace _ _ => false

theorem ScriptBlock.mem_facts_exports {script : ScriptBlock} {scope : Nat} {e : ExportedName} :
    e ∈ (script.facts scope).exports ↔
      ∃ item ∈ script.items, e ∈ (script.itemFacts scope item).exports :=
  script.mem_facts_iff scope Facts.exports rfl fun _ _ => rfl

theorem ScriptBlock.exportedName_of_isTypeOnly {script : ScriptBlock} {source : Option String}
    {start : Nat} {s : ExportSpecifier} (h : s.isTypeOnly) :
    script.exportedName source start s = none := by
  cases s with
  | member start name exported typeOnly =>
    obtain rfl : typeOnly = true := h
    rfl
  | «namespace» start name => cases h

/-- The exports that count: the entries of export lists, neither of which is about types alone. -/
theorem ScriptBlock.mem_exports_iff {script : ScriptBlock} {scope : Nat} {e : ExportedName} :
    e ∈ (script.facts scope).exports ↔ ∃ item ∈ script.items, ∃ list,
      item.kind = .exportList list ∧ list.typeOnly = false ∧
      ∃ s ∈ list.specifiers, s.isTypeOnly = false ∧
        script.exportedName (list.source.bind (·.value.text?)) item.start s = some e := by
  rw [mem_facts_exports]
  refine exists_congr fun item => and_congr_right fun _ => ?_
  constructor
  · intro he
    unfold itemFacts at he
    split at he
    · cases he
    · cases he
    · next list hk =>
      simp only [exportedNames] at he
      split_ifs at he with ht
      · cases he
      · obtain ⟨s, hs, hse⟩ := List.mem_filterMap.mp he
        refine ⟨list, hk, by simpa using ht, s, hs, ?_, hse⟩
        by_contra hn
        rw [exportedName_of_isTypeOnly (by simpa using hn)] at hse
        cases hse
    · cases he
    · cases he
    · split_ifs at he <;> cases he
    · cases he
  · rintro ⟨list, hk, ht, s, hs, _, hse⟩
    simp only [itemFacts, hk, exportedNames, ht]
    exact List.mem_filterMap.mpr ⟨s, hs, hse⟩

/-- A component of the third version has no document just when variables, computed values or methods are
asked for and some script has a dangling export; the first one of the first such script is told. What is
exported as a type alone does not count. -/
theorem extract_v3_fails_iff_dangling (c : Component) (options : Options)
    (hd : options.dialect c = .ok .v3) :
    ((∃ err, extract c options = .error err) ↔ options.AsksForLinked ∧
      ∃ p ∈ c.scopes, ∃ e ∈ (p.2.facts p.1).exports, (p.2.facts p.1).Dangling e) ∧
    (∀ err, extract c options = .error err →
      ∃ e, c.dangling? = some e ∧ err = .unresolvedReference e.localName) ∧
    ∀ p ∈ c.scopes, ∀ e, e ∈ (p.2.facts p.1).exports ↔ ∃ item ∈ p.2.items, ∃ list,
      item.kind = .exportList list ∧ list.typeOnly = false ∧
      ∃ s ∈ list.specifiers, s.isTypeOnly = false ∧
        p.2.exportedName (list.source.bind (·.value.text?)) item.start s = some e := by
  refine ⟨?_, ?_, fun p _ e => ScriptBlock.mem_exports_iff⟩
  · rw [← Component.dangling?_isSome_iff, Option.isSome_iff_exists]
    simp only [extract_v3_eq_error_iff hd]
    constructor
    · rintro ⟨_, ha, e, he, _⟩
      exact ⟨ha, e, he⟩
    · rintro ⟨ha, e, he⟩
      exact ⟨_, ha, e, he, rfl⟩
  · intro err herr
    exact ((extract_v3_eq_error_iff hd).mp herr).2

def danglingSource : List Char :=
  "<script lang='ts'>let a;export{type t,a,b}</script>".toList

def dangling : Component where
  name := none
  source := danglingSource
  markup := List.replicate 51 ' '
  scripts := [
    { isModule := false
      isTypeScript := true
      offset := 18
      items := [
        ⟨0, .statement (.declaration (.vars 0 false [.mk ⟨4, 5⟩ (.ident ⟨"a", ⟨4, 5⟩⟩ []) none]))⟩,
        ⟨6, .exportList ⟨false, [
          .member 13 (.ident ⟨"t", ⟨18, 19⟩⟩) none true,
          .member 20 (.ident ⟨"a", ⟨20, 21⟩⟩) none false,
          .member 22 (.ident ⟨"b", ⟨22, 23⟩⟩) none false], none⟩⟩]
      comments := [] }]
  markupComments := []

set_option maxRecDepth 4096 in
theorem parse_danglingSource : Component.parse danglingSource none = .ok dangling := by
  cbv

/-- The type is not missed and the variable is found; the last export stands for nothing. Where only events
are asked for, nothing is linked. -/
theorem extract_v3_fails_dangling :
    Component.parse danglingSource none = .ok dangling ∧
    extract dangling {} = .error (.unresolvedReference "b") ∧
    ∃ doc, extract dangling { features := [.events] } = .ok doc := by
  obtain ⟨hfails, hnames, _⟩ := extract_v3_fails_iff_dangling dangling {} rfl
  obtain ⟨herror, _⟩ := extract_v3_fails_iff_dangling dangling { features := [.events] } rfl
  refine ⟨parse_danglingSource, ?_, ?_⟩
  · obtain ⟨err, herr⟩ := hfails.mpr ⟨by decide, Component.dangling?_isSome_iff.mp (by decide)⟩
    obtain ⟨e, he, rfl⟩ := hnames err herr
    have hb : dangling.dangling?.map ExportedName.localName = some "b" := by decide
    rw [he] at hb
    rw [herr, Option.some.inj hb]
  · cases hx : extract dangling { features := [.events] } with
    | ok doc => exact ⟨doc, rfl⟩
    | error err => exact absurd (herror.mp ⟨err, hx⟩).1 (by decide)

end ComponentDoc
