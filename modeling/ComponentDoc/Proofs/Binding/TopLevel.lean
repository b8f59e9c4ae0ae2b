import ComponentDoc.Binding.Symbols
import ComponentDoc.Proofs.Binding.ParamDefaults

namespace ComponentDoc

open Script

theorem Script.Pattern.map_name_params (p : Pattern) :
    p.params.map ParamBinding.name = p.names.map Ident.name := by
  rw [p.params_eq, List.map_map]
  rfl

/-- A name is looked up with success just when it has an entry. -/
theorem Symbols.isSome_get?_iff {symbols : Symbols} {name : String} :
    (symbols.get? name).isSome ↔ name ∈ symbols.entries.map Prod.fst := by
  unfold Symbols.get?
  rw [Option.isSome_map, List.find?_isSome, List.mem_map]
  simp only [List.mem_reverse, beq_iff_eq]

/-- The local names of an import, those of types included. -/
def Script.Item.importedNames (item : Item) : List String :=
  match item.kind with
  | .imports entry => entry.specifiers.map fun s => s.binding.name
  | _ => []

namespace ScriptBlock

/-- The script has an import specifier with this local name. -/
def HasSpecifier (script : ScriptBlock) (name : String) : Prop :=
  ∃ item ∈ script.items, ∃ entry, item.kind = .imports entry ∧ ∃ s ∈ entry.specifiers, s.binding.name = name

theorem hasSpecifier_iff {script : ScriptBlock} {name : String} :
    script.HasSpecifier name ↔ ∃ item ∈ script.items, name ∈ item.importedNames := by
  refine exists_congr fun item => and_congr_right fun _ => ?_
  obtain ⟨start, kind⟩ := item
  cases kind with
  | imports entry => simp [Item.importedNames]
  | _ => simp [Item.importedNames]

section

variable (script : ScriptBlock) (scope : Nat)

/-- A name on its own has an entry of its own, which makes no difference to the names. -/
theorem map_fst_declaratorSymbols (d : Declarator) :
    (script.declaratorSymbols d).map Prod.fst = d.names.map Ident.name := by
  obtain ⟨span, pattern, init⟩ := d
  cases pattern with
  | ident id type => rfl
  | _ => simp [declaratorSymbols, Declarator.names]

theorem map_fst_declSymbols (isExported : Bool) (statementStart : Nat) (decl : Decl) :
    (script.declSymbols decl).map Prod.fst =
      (script.declared scope isExported statementStart decl).map Occurrence.name := by
  cases decl with
  | vars start constant declarators =>
    simp only [declSymbols, declared, List.map_flatten, List.map_map]
    congr 1
    apply List.map_congr_left
    intro d _
    exact (script.map_fst_declaratorSymbols d).trans
      (script.map_name_declaratorNames scope isExported start statementStart d).symm
  | function start name func => rfl
  | classDecl id parts => rfl
  | compound parts => rfl

/-- An item binds the names that it declares and those that it imports. -/
theorem map_fst_itemSymbols (item : Item) :
    (script.itemSymbols item).map Prod.fst =
      (script.itemFacts scope item).declarations.map Occurrence.name ++ item.importedNames := by
  obtain ⟨isExported, hdeclarations⟩ := script.itemFacts_declarations scope item
  rw [hdeclarations]
  obtain ⟨start, kind⟩ := item
  cases kind with
  | exportDecl decl =>
    rw [show Item.importedNames ⟨start, .exportDecl decl⟩ = [] from rfl, List.append_nil]
    exact script.map_fst_declSymbols scope isExported start decl
  | imports entry =>
    simp [itemSymbols, Item.importedNames, Item.decl?]
  | statement statement =>
    rw [show Item.importedNames ⟨start, .statement statement⟩ = [] from rfl, List.append_nil]
    cases statement with
    | declaration decl => exact script.map_fst_declSymbols scope isExported start decl
    | _ => rfl
  | _ => rfl

/-- A name is a symbol of a script just when one of the items binds it. -/
theorem isSome_get?_symbols_iff {name : String} : (script.symbols.get? name).isSome ↔ ∃ item ∈ script.items,
    (∃ o ∈ (script.itemFacts scope item).declarations, o.name = name) ∨ name ∈ item.importedNames := by
  have hentries : name ∈ script.symbols.entries.map Prod.fst ↔
      ∃ item ∈ script.items, name ∈ (script.itemSymbols item).map Prod.fst := by
    simp only [symbols, List.map_flatten, List.map_map, List.mem_flatten, List.mem_map, Function.comp_apply]
    simp only [exists_exists_and_eq_and, List.mem_map]
  rw [Symbols.isSome_get?_iff, hentries]
  simp only [script.map_fst_itemSymbols scope, List.mem_append, List.mem_map]

/-- Declarations, parameters and lists of names take the same names out of a pattern, in the same order; and the
symbols of a script are the names of its declarations and the local names of its import specifiers. -/
theorem bound_names_agree :
    (∀ (pattern : Pattern) (span : Text.Span) (init : Option Expr) (isExported : Bool)
        (start statementStart : Nat),
      (script.declaratorNames scope isExported start statementStart (.mk span pattern init)).map
          Occurrence.name = pattern.names.map Ident.name ∧
      pattern.params.map ParamBinding.name = pattern.names.map Ident.name) ∧
    ∀ name, (script.symbols.get? name).isSome ↔
      (∃ o ∈ (script.facts scope).declarations, o.name = name) ∨ script.HasSpecifier name := by
  constructor
  · intro pattern span init isExported start statementStart
    exact ⟨script.map_name_declaratorNames scope isExported start statementStart (.mk span pattern init),
      pattern.map_name_params⟩
  · intro name
    rw [script.isSome_get?_symbols_iff scope, hasSpecifier_iff]
    simp only [mem_facts_declarations]
    constructor
    · rintro ⟨item, hi, ⟨o, ho, hn⟩ | hn⟩
      · exact .inl ⟨o, ⟨item, hi, ho⟩, hn⟩
      · exact .inr ⟨item, hi, hn⟩
    · rintro (⟨o, ⟨item, hi, ho⟩, hn⟩ | ⟨item, hi, hn⟩)
      · exact ⟨item, hi, .inl ⟨o, ho, hn⟩⟩
      · exact ⟨item, hi, .inr hn⟩

end

end ScriptBlock

end ComponentDoc
