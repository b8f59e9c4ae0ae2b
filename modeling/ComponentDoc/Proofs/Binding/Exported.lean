import ComponentDoc.Proofs.Document.Unresolved

namespace ComponentDoc

open Script

namespace Script

/-- The declaration that an item makes, exported or not. -/
def Item.decl? (item : Item) : Option Decl :=
  match item.kind with
  | .statement (.declaration decl) => some decl
  | .exportDecl decl => some decl
  | _ => none

def Declarator.names : Declarator → List Ident
  | .mk _ pattern _ => pattern.names

/-- The variables that a declaration introduces. -/
def Decl.variables : Decl → List Ident
  | .vars _ _ declarators => (declarators.map Declarator.names).flatten
  | _ => []

def ImportSpecifier.isTypeOnly (s : ImportSpecifier) : Bool :=
  match s.imported with
  | .member _ typeOnly => typeOnly
  | _ => false

/-- What an export list calls a name on the side that it comes from. -/
def ExportSpecifier.localName : ExportSpecifier → String
  | .member _ name _ _ => name.text
  | .namespace _ _ => "*"

end Script

namespace ScriptBlock

def decls (script : ScriptBlock) : List Decl :=
  script.items.filterMap Item.decl?

def DeclaresVariable (script : ScriptBlock) (name : String) : Prop :=
  ∃ decl ∈ script.decls, ∃ id ∈ decl.variables, id.name = name

def DeclaresFunction (script : ScriptBlock) (name : String) : Prop :=
  ∃ start id func, .function start id func ∈ script.decls ∧ id.name = name

def DeclaresClass (script : ScriptBlock) (name : String) : Prop :=
  ∃ id parts, .classDecl id parts ∈ script.decls ∧ id.name = name

/-- An import binds the name to more than a type. -/
def Imports (script : ScriptBlock) (name : String) : Prop :=
  ∃ item ∈ script.items, ∃ entry, item.kind = .imports entry ∧ entry.typeOnly = false ∧
    entry.source.value.text?.isSome ∧ ∃ s ∈ entry.specifiers, s.isTypeOnly = false ∧ s.binding.name = name

/-- An export list takes the name from the script itself, and not as a type alone. -/
def ListsExport (script : ScriptBlock) (name : String) : Prop :=
  ∃ item ∈ script.items, ∃ list, item.kind = .exportList list ∧ list.typeOnly = false ∧
    list.source.bind (·.value.text?) = none ∧
    ∃ s ∈ list.specifiers, s.isTypeOnly = false ∧ s.localName = name

end ScriptBlock

mutual

/-- A declaration walks through a pattern as its names are listed. -/
theorem Script.Pattern.map_id_bound (init : Option Expr) (p : Pattern) :
    (p.bound init).map BoundName.id = p.names := by
  cases p with
  | ident id type => rfl
  | hole => rfl
  | array start elements type => exact map_id_boundByElements elements
  | object start properties type => exact map_id_boundByProperties properties
  | rest start inner type => exact inner.map_id_bound none
  | withDefault inner value => exact inner.map_id_bound (some value)
  | target inner => rfl

theorem map_id_boundByElements (ps : List Pattern) :
    (boundByElements ps).map BoundName.id = patternsNames ps := by
  cases ps with
  | nil => rfl
  | cons p ps =>
    rw [boundByElements, patternsNames, List.map_append, p.map_id_bound none, map_id_boundByElements ps]

theorem map_id_boundByProperties (ps : List PatternProperty) :
    (boundByProperties ps).map BoundName.id = propertiesNames ps := by
  cases ps with
  | nil => rfl
  | cons p ps =>
    cases p with
    | keyValue key value =>
      rw [boundByProperties, propertiesNames, List.map_append, value.map_id_bound none,
        map_id_boundByProperties ps]
      rfl
    | shorthand id default =>
      rw [boundByProperties, propertiesNames, List.map_cons, map_id_boundByProperties ps]
      rfl
    | rest start inner =>
      rw [boundByProperties, propertiesNames, List.map_append, inner.map_id_bound none,
        map_id_boundByProperties ps]
      rfl

end

namespace ScriptBlock

section

variable (script : ScriptBlock) (scope : Nat)

theorem map_name_declaratorNames (isExported : Bool) (start statementStart : Nat) (d : Declarator) :
    (script.declaratorNames scope isExported start statementStart d).map Occurrence.name =
      d.names.map Ident.name := by
  obtain ⟨span, pattern, init⟩ := d
  rw [Declarator.names, ← pattern.map_id_bound init, List.map_map, declaratorNames, List.map_map]
  rfl

theorem exists_mem_declared_iff {isExported : Bool} {statementStart : Nat} {decl : Decl} {name : String} :
    (∃ o ∈ script.declared scope isExported statementStart decl, o.name = name) ↔
      (∃ id ∈ decl.variables, id.name = name) ∨
        ∃ start id func, decl = .function start id func ∧ id.name = name := by
  cases decl with
  | vars start constant declarators =>
    have hnames (d : Declarator) :
        (∃ o ∈ script.declaratorNames scope isExported start statementStart d, o.name = name) ↔
          ∃ id ∈ d.names, id.name = name := by
      rw [← List.mem_map, ← List.mem_map, map_name_declaratorNames]
    have hfunction : ¬ ∃ s id func, Decl.vars start constant declarators = .function s id func ∧
        id.name = name := by
      rintro ⟨s, id, func, h, _⟩
      cases h
    rw [or_iff_left hfunction]
    constructor
    · rintro ⟨o, ho, hn⟩
      obtain ⟨_, hm, ho⟩ := List.mem_flatten.mp ho
      obtain ⟨d, hd, rfl⟩ := List.mem_map.mp hm
      obtain ⟨id, hid, hn⟩ := (hnames d).mp ⟨o, ho, hn⟩
      exact ⟨id, List.mem_flatten_of_mem (List.mem_map_of_mem hd) hid, hn⟩
    · rintro ⟨id, hid, hn⟩
      obtain ⟨_, hm, hid⟩ := List.mem_flatten.mp hid
      obtain ⟨d, hd, rfl⟩ := List.mem_map.mp hm
      obtain ⟨o, ho, hn⟩ := (hnames d).mpr ⟨id, hid, hn⟩
      exact ⟨o, List.mem_flatten_of_mem (List.mem_map_of_mem hd) ho, hn⟩
  | function start id func => simp [declared, Decl.variables, Occurrence.ofName]
  | classDecl id parts => simp [declared, Decl.variables]
  | compound parts => simp [declared, Decl.variables]

/-- What an item declares is what its declaration introduces. -/
theorem itemFacts_declarations (item : Item) : ∃ isExported, (script.itemFacts scope item).declarations =
    (item.decl?.map (script.declared scope isExported item.start)).getD [] := by
  obtain ⟨start, kind⟩ := item
  cases kind with
  | exportDecl decl => exact ⟨true, rfl⟩
  | statement statement =>
    refine ⟨false, ?_⟩
    cases statement with
    | labeled label body =>
      cases body with
      | expr start value =>
        simp only [itemFacts, Item.decl?]
        split_ifs <;> rfl
      | _ => rfl
    | _ => rfl
  | _ => exact ⟨false, rfl⟩

theorem exists_mem_declarations_iff {name : String} :
    (∃ o ∈ (script.facts scope).declarations, o.name = name) ↔
      script.DeclaresVariable name ∨ script.DeclaresFunction name := by
  simp only [mem_facts_declarations]
  constructor
  · rintro ⟨o, ⟨item, hi, ho⟩, hn⟩
    obtain ⟨isExported, hitem⟩ := script.itemFacts_declarations scope item
    rw [hitem] at ho
    cases hd : item.decl? with
    | none => simp [hd] at ho
    | some decl =>
      rw [hd] at ho
      have hm : decl ∈ script.decls := List.mem_filterMap.mpr ⟨item, hi, hd⟩
      rcases (exists_mem_declared_iff script scope).mp ⟨o, ho, hn⟩ with hv | ⟨start, id, func, rfl, hn⟩
      · exact .inl ⟨decl, hm, hv⟩
      · exact .inr ⟨start, id, func, hm, hn⟩
  · intro h
    obtain ⟨decl, hm, h⟩ : ∃ decl ∈ script.decls, (∃ id ∈ decl.variables, id.name = name) ∨
        ∃ start id func, decl = .function start id func ∧ id.name = name := by
      rcases h with ⟨decl, hm, hv⟩ | ⟨start, id, func, hm, hn⟩
      · exact ⟨decl, hm, .inl hv⟩
      · exact ⟨_, hm, .inr ⟨start, id, func, rfl, hn⟩⟩
    obtain ⟨item, hi, hd⟩ := List.mem_filterMap.mp hm
    obtain ⟨isExported, hitem⟩ := script.itemFacts_declarations scope item
    obtain ⟨o, ho, hn⟩ := (exists_mem_declared_iff script scope).mpr h
    refine ⟨o, ⟨item, hi, ?_⟩, hn⟩
    rw [hitem, hd]
    exact ho

theorem mem_facts_imports {i : ImportedName} : i ∈ (script.facts scope).imports ↔
    ∃ item ∈ script.items, i ∈ (script.itemFacts scope item).imports :=
  script.mem_facts_iff scope Facts.imports rfl fun _ _ => rfl

theorem exists_importedName_iff (path : String) (start : Nat) {name : String} {s : ImportSpecifier} :
    (∃ i, script.importedName path start s = some i ∧ i.localName = name) ↔
      s.isTypeOnly = false ∧ s.binding.name = name := by
  unfold importedName ImportSpecifier.isTypeOnly
  cases s.imported with
  | default => simp
  | «namespace» => simp
  | member imported typeOnly => cases typeOnly <;> simp

/-- Only import statements import. -/
theorem mem_itemFacts_imports {item : Item} {i : ImportedName} :
    i ∈ (script.itemFacts scope item).imports ↔
      ∃ entry, item.kind = .imports entry ∧ i ∈ script.importedNames item.start entry := by
  obtain ⟨start, kind⟩ := item
  cases kind with
  | imports entry => simp [itemFacts]
  | statement statement =>
    cases statement with
    | labeled label body =>
      cases body with
      | expr start value =>
        simp only [itemFacts]
        split_ifs <;> simp
      | _ => simp [itemFacts]
    | _ => simp [itemFacts]
  | _ => simp [itemFacts]

theorem exists_mem_imports_iff {name : String} :
    (∃ i ∈ (script.facts scope).imports, i.localName = name) ↔ script.Imports name := by
  simp only [mem_facts_imports, mem_itemFacts_imports]
  constructor
  · rintro ⟨i, ⟨item, hi, entry, hk, hm⟩, hn⟩
    unfold importedNames at hm
    split_ifs at hm with ht
    · simp at hm
    · cases hp : entry.source.value.text? with
      | none => simp [hp] at hm
      | some path =>
        simp only [hp] at hm
        obtain ⟨s, hs, hsi⟩ := List.mem_filterMap.mp hm
        exact ⟨item, hi, entry, hk, by simpa using ht, by rw [hp]; rfl, s, hs,
          (script.exists_importedName_iff path item.start).mp ⟨i, hsi, hn⟩⟩
  · rintro ⟨item, hi, entry, hk, ht, hsource, s, hs, hbinds⟩
    obtain ⟨path, hp⟩ := Option.isSome_iff_exists.mp hsource
    obtain ⟨i, hsi, hn⟩ := (script.exists_importedName_iff path item.start).mpr hbinds
    refine ⟨i, ⟨item, hi, entry, hk, ?_⟩, hn⟩
    simp only [importedNames, ht, hp]
    exact List.mem_filterMap.mpr ⟨s, hs, hsi⟩

/-- What an entry of an export list is recorded as. -/
theorem exists_exportedName (source : Option String) (start : Nat) {s : ExportSpecifier}
    (hs : s.isTypeOnly = false) : ∃ e, script.exportedName source start s = some e ∧
      e.source = source ∧ e.localName = s.localName := by
  cases s with
  | member start source exported typeOnly =>
    obtain rfl : typeOnly = false := hs
    exact ⟨_, rfl, rfl, rfl⟩
  | «namespace» start name => exact ⟨_, rfl, rfl, rfl⟩

theorem exists_mem_exports_iff {name : String} :
    (∃ e ∈ (script.facts scope).exports, e.source = none ∧ e.localName = name) ↔
      script.ListsExport name := by
  simp only [mem_exports_iff]
  constructor
  · rintro ⟨e, ⟨item, hi, list, hk, ht, s, hs, hst, hse⟩, hsource, hn⟩
    obtain ⟨e', he', hsource', hn'⟩ := script.exists_exportedName
      (list.source.bind (·.value.text?)) item.start hst
    obtain rfl : e = e' := Option.some.inj (hse.symm.trans he')
    exact ⟨item, hi, list, hk, ht, hsource'.symm.trans hsource, s, hs, hst, hn'.symm.trans hn⟩
  · rintro ⟨item, hi, list, hk, ht, hsource, s, hs, hst, hn⟩
    obtain ⟨e, he, hsource', hn'⟩ := script.exists_exportedName
      (list.source.bind (·.value.text?)) item.start hst
    exact ⟨e, ⟨item, hi, list, hk, ht, s, hs, hst, he⟩, hsource'.trans hsource, hn'.trans hn⟩

/-- An export that cannot be linked names neither a variable nor a function nor an import. -/
theorem dangling_iff {e : ExportedName} : (script.facts scope).Dangling e ↔ e.source = none ∧
    ¬ (script.DeclaresVariable e.localName ∨ script.DeclaresFunction e.localName ∨
      script.Imports e.localName) := by
  rw [← or_assoc, ← script.exists_mem_declarations_iff scope,
    ← script.exists_mem_imports_iff scope]
  simp [Facts.Dangling]

theorem forall_not_dangling_iff : (∀ e ∈ (script.facts scope).exports, ¬ (script.facts scope).Dangling e) ↔
    ∀ name, script.ListsExport name →
      script.DeclaresVariable name ∨ script.DeclaresFunction name ∨ script.Imports name := by
  simp only [dangling_iff, ← script.exists_mem_exports_iff scope]
  constructor
  · rintro h name ⟨e, he, hsource, rfl⟩
    by_contra hn
    exact h e he ⟨hsource, hn⟩
  · rintro h e he ⟨hsource, hn⟩
    exact hn (h e.localName ⟨e, he, hsource, rfl⟩)

end

/-- A script is linked just when each name that it exports by a list is that of a variable, of a function or
of an import. Where it is not linked, such a list names the one that is told, and the script has no variable,
no function and no import of that name. -/
theorem resolve_ok_iff_exports_bound (script : ScriptBlock) (scope : Nat) :
    ((∃ os, (script.facts scope).resolve scope = .ok os) ↔ ∀ name, script.ListsExport name →
      script.DeclaresVariable name ∨ script.DeclaresFunction name ∨ script.Imports name) ∧
    ∀ name, (script.facts scope).resolve scope = .error (.unresolvedReference name) →
      script.ListsExport name ∧ ¬ script.DeclaresVariable name ∧ ¬ script.DeclaresFunction name ∧
        ¬ script.Imports name := by
  have herror := (script.facts scope).errorOf?_resolve scope
  constructor
  · have hnone : (script.facts scope).dangling? = none ↔
        ∀ e ∈ (script.facts scope).exports, ¬ (script.facts scope).Dangling e := by
      simp [Facts.dangling?]
    rw [← script.forall_not_dangling_iff scope, ← hnone]
    cases hr : (script.facts scope).resolve scope with
    | ok os =>
      rw [hr] at herror
      simpa using herror.symm
    | error err =>
      rw [hr] at herror
      constructor
      · rintro ⟨os, hos⟩
        cases hos
      · intro hd
        simp [hd] at herror
  · intro name hr
    rw [hr, errorOf?_error] at herror
    obtain ⟨e, he, heq⟩ := Option.map_eq_some_iff.mp herror.symm
    obtain rfl : e.localName = name := ExtractError.unresolvedReference.inj heq
    have hd : (script.facts scope).Dangling e := by simpa using List.find?_some he
    obtain ⟨hsource, hunbound⟩ := (script.dangling_iff scope).mp hd
    simp only [not_or] at hunbound
    exact ⟨(script.exists_mem_exports_iff scope).mp ⟨e, List.mem_of_find?_eq_some he, hsource, rfl⟩, hunbound⟩

/-- The script `let {a: [b]} = c; export {b}`. -/
def nested : ScriptBlock where
  isModule := false
  isTypeScript := false
  offset := 8
  items := [
    ⟨0, .statement (.declaration (.vars 0 false [.mk ⟨4, 16⟩
      (.object 4 [.keyValue (.name ⟨"a", ⟨5, 6⟩⟩) (.array 8 [.ident ⟨"b", ⟨9, 10⟩⟩ []] [])] [])
      (some (.ident ⟨"c", ⟨15, 16⟩⟩))]))⟩,
    ⟨18, .exportList ⟨false, [.member 26 (.ident ⟨"b", ⟨26, 27⟩⟩) none false], none⟩⟩]
  comments := []

theorem nested_listsExport {name : String} (h : nested.ListsExport name) : name = "b" := by
  obtain ⟨item, hi, list, hk, _, _, s, hs, _, rfl⟩ := h
  simp only [nested, List.mem_cons, List.not_mem_nil, or_false] at hi
  rcases hi with rfl | rfl
  · cases hk
  · cases hk
    obtain rfl := List.mem_singleton.mp hs
    rfl

/-- The name is found in the pattern, so that the script is linked. -/
theorem resolve_ok_nested : nested.ListsExport "b" ∧ nested.DeclaresVariable "b" ∧
    ∃ os, (nested.facts 0).resolve 0 = .ok os := by
  have hvariable : nested.DeclaresVariable "b" :=
    ⟨_, List.mem_singleton_self _, ⟨"b", ⟨9, 10⟩⟩, List.mem_singleton_self _, rfl⟩
  have hlisted : nested.ListsExport "b" :=
    ⟨_, List.mem_cons_of_mem _ (List.mem_singleton_self _), _, rfl, rfl, rfl, _,
      List.mem_singleton_self _, rfl, rfl⟩
  refine ⟨hlisted, hvariable, (resolve_ok_iff_exports_bound nested 0).1.mpr ?_⟩
  intro name h
  rw [nested_listsExport h]
  exact .inl hvariable

def classText : List Char :=
  "class A\x7b\x7dexport\x7bA\x7d".toList

def withClass : ScriptBlock where
  isModule := false
  isTypeScript := false
  offset := 8
  items := [
    ⟨0, .statement (.declaration (.classDecl ⟨"A", ⟨6, 7⟩⟩ []))⟩,
    ⟨9, .exportList ⟨false, [.member 16 (.ident ⟨"A", ⟨16, 17⟩⟩) none false], none⟩⟩]
  comments := []

set_option maxRecDepth 4096 in
theorem read_classText : read classText 8 false false = .ok withClass := by
  cbv

/-- A script that declares a class and exports it by a list is not linked. -/
theorem exported_class_unresolved : read classText 8 false false = .ok withClass ∧
    withClass.DeclaresClass "A" ∧ withClass.ListsExport "A" ∧
    (withClass.facts 0).resolve 0 = .error (.unresolvedReference "A") := by
  refine ⟨read_classText, ⟨_, _, List.mem_singleton_self _, rfl⟩, ?_, rfl⟩
  exact ⟨_, List.mem_cons_of_mem _ (List.mem_singleton_self _), _, rfl, rfl, rfl, _,
    List.mem_singleton_self _, rfl, rfl⟩

end ScriptBlock

end ComponentDoc
