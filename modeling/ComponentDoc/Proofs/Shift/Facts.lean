import ComponentDoc.Binding.Resolution
import ComponentDoc.Proofs.Shift.Component

namespace ComponentDoc

open Text Script

@[simp] theorem ScriptBlock.place_shift (script : ScriptBlock) (n offset : Nat) :
    (script.shift n).place offset = n + script.place offset :=
  Nat.add_assoc ..

@[simp] theorem ScriptBlock.range_shift (script : ScriptBlock) (n : Nat) (span : Span) :
    (script.shift n).range span = (script.range span).shift n :=
  (span.shift_shift ..).symm

@[simp] theorem ScriptBlock.isModule_shift (script : ScriptBlock) (n : Nat) :
    (script.shift n).isModule = script.isModule := rfl

@[simp] theorem Text.Span.start_shift (s : Span) (n : Nat) : (s.shift n).start = n + s.start := rfl

namespace Occurrence

def shift (o : Occurrence) (n : Nat) : Occurrence :=
  { o with
    ident := o.ident.shift n
    anchors := o.anchors.map (n + ·)
    trailing := o.trailing.map (n + ·) }

theorem map_addAnchors (n : Nat) (anchors more : List Nat) :
    (addAnchors anchors more).map (n + ·) = addAnchors (anchors.map (n + ·)) (more.map (n + ·)) := by
  induction more generalizing anchors with
  | nil => rfl
  | cons a more ih =>
    have hc : (anchors.map (n + ·)).contains (n + a) = anchors.contains a := by
      rw [Bool.eq_iff_iff]
      simp
    simp only [addAnchors, ih, List.map_cons, hc]
    split_ifs <;> simp

theorem shift_ofName (n : Nat) (id : Identity) (name : String) (kind : EntityKind)
    (visibility : Visibility) (ident : Span) (anchors : List Nat) :
    (ofName id name kind visibility ident anchors).shift n =
      ofName id name kind visibility (ident.shift n) (anchors.map (n + ·)) := by
  simp [ofName, shift, map_addAnchors]

end Occurrence

def ImportedName.shift (i : ImportedName) (n : Nat) : ImportedName :=
  { i with ident := i.ident.shift n, anchors := i.anchors.map (n + ·) }

def ExportedName.shift (e : ExportedName) (n : Nat) : ExportedName :=
  { e with ident := e.ident.shift n, anchors := e.anchors.map (n + ·) }

def Assignment.shift (a : Assignment) (n : Nat) : Assignment :=
  { a with ident := a.ident.shift n, anchors := a.anchors.map (n + ·) }

def Facts.shift (facts : Facts) (n : Nat) : Facts where
  declarations := facts.declarations.map (·.shift n)
  imports := facts.imports.map (·.shift n)
  exports := facts.exports.map (·.shift n)
  assignments := facts.assignments.map (·.shift n)

namespace ScriptBlock

variable (script : ScriptBlock) (n : Nat)

theorem declaratorNames_shift (scope : Nat) (isExported : Bool) (start statementStart : Nat)
    (d : Declarator) :
    (script.shift n).declaratorNames scope isExported start statementStart d =
      (script.declaratorNames scope isExported start statementStart d).map (·.shift n) := by
  obtain ⟨span, pattern, init⟩ := d
  simp only [declaratorNames, List.map_map, place_shift, range_shift]
  refine congrArg (List.map · _) (funext fun b => ?_)
  simp [Occurrence.shift, Occurrence.ofName, Occurrence.map_addAnchors]

theorem declared_shift (scope : Nat) (isExported : Bool) (statementStart : Nat) (decl : Decl) :
    (script.shift n).declared scope isExported statementStart decl =
      (script.declared scope isExported statementStart decl).map (·.shift n) := by
  cases decl with
  | vars start constant declarators =>
    simp only [declared, List.map_flatten, List.map_map]
    exact congrArg (fun f => (List.map f declarators).flatten)
      (funext fun d => script.declaratorNames_shift n scope isExported start statementStart d)
  | function start name func =>
    simp [declared, Occurrence.shift, Occurrence.ofName, Occurrence.map_addAnchors]
  | classDecl name parts => rfl
  | compound parts => rfl

theorem importedName_shift (path : String) (statementStart : Nat) (s : ImportSpecifier) :
    (script.shift n).importedName path statementStart s =
      (script.importedName path statementStart s).map (·.shift n) := by
  unfold importedName
  simp only [place_shift, range_shift]
  split <;> rfl

theorem importedNames_shift (statementStart : Nat) (entry : Import) :
    (script.shift n).importedNames statementStart entry =
      (script.importedNames statementStart entry).map (·.shift n) := by
  unfold importedNames
  split_ifs
  · rfl
  · split
    · rw [List.map_filterMap]
      exact congrArg (List.filterMap · _)
        (funext fun s => script.importedName_shift n _ statementStart s)
    · rfl

theorem exportedName_shift (source : Option String) (statementStart : Nat) (s : ExportSpecifier) :
    (script.shift n).exportedName source statementStart s =
      (script.exportedName source statementStart s).map (·.shift n) := by
  unfold exportedName
  simp only [place_shift, range_shift]
  split <;> rfl

theorem exportedNames_shift (statementStart : Nat) (list : ExportList) :
    (script.shift n).exportedNames statementStart list =
      (script.exportedNames statementStart list).map (·.shift n) := by
  unfold exportedNames
  split_ifs
  · rfl
  · rw [List.map_filterMap]
    exact congrArg (List.filterMap · _)
      (funext fun s => script.exportedName_shift n _ statementStart s)

theorem assignment?_shift (statementStart : Nat) (isReactive : Bool) (e : Expr) :
    (script.shift n).assignment? statementStart isReactive e =
      (script.assignment? statementStart isReactive e).map (·.shift n) := by
  unfold assignment?
  simp only [place_shift, range_shift]
  split <;> rfl

theorem itemFacts_shift (scope : Nat) (item : Item) :
    (script.shift n).itemFacts scope item = (script.itemFacts scope item).shift n := by
  unfold itemFacts
  simp only [declared_shift, exportedNames_shift, importedNames_shift, assignment?_shift]
  split
  · rfl
  · rfl
  · rfl
  · rfl
  · simp [Facts.shift, Option.toList_map]
  · split_ifs
    · simp [Facts.shift, Option.toList_map]
    · rfl
  · rfl

theorem facts_shift (scope : Nat) :
    (script.shift n).facts scope = (script.facts scope).shift n := by
  have happend (a b : Facts) : (a.append b).shift n = (a.shift n).append (b.shift n) := by
    simp [Facts.append, Facts.shift]
  change (script.items.map ((script.shift n).itemFacts scope)).foldr Facts.append {} = _
  unfold facts
  induction script.items with
  | nil => rfl
  | cons item items ih =>
    rw [List.map_cons, List.foldr_cons, ih, List.map_cons, List.foldr_cons, happend, itemFacts_shift]

end ScriptBlock

namespace Facts

variable (facts : Facts) (n : Nat)

def ExportTarget.shift : ExportTarget → Nat → ExportTarget
  | .passedOn path, _ => .passedOn path
  | .declared d, n => .declared (d.shift n)
  | .imported entry, n => .imported (entry.shift n)

theorem declaration?_shift (name : String) :
    (facts.shift n).declaration? name = (facts.declaration? name).map (·.shift n) :=
  List.find?_map ..

theorem import?_shift (name : String) :
    (facts.shift n).import? name = (facts.import? name).map (·.shift n) := by
  unfold import? shift
  rw [← List.map_reverse, List.find?_map]
  rfl

theorem binds_shift (name : String) : (facts.shift n).binds name = facts.binds name := by
  simp only [binds, declaration?_shift, import?_shift, Option.isSome_map]

theorem lastValue?_shift (name : String) : (facts.shift n).lastValue? name = facts.lastValue? name := by
  unfold lastValue? shift
  rw [← List.map_reverse, List.find?_map, Option.map_map]
  rfl

theorem reassigned_shift (seen : List String) (ds : List Occurrence) :
    (facts.shift n).reassigned seen (ds.map (·.shift n)) =
      (facts.reassigned seen ds).map (·.shift n) := by
  induction ds generalizing seen with
  | nil => rfl
  | cons d ds ih =>
    rw [List.map_cons, reassigned, reassigned, List.map_cons, lastValue?_shift]
    refine congrArg₂ List.cons ?_ (ih _)
    change (if seen.contains d.name then _ else _) = Occurrence.shift (if _ then _ else _) n
    split_ifs <;> rfl

theorem dependencies_shift (a : Assignment) :
    (facts.shift n).dependencies (a.shift n) = facts.dependencies a :=
  congrArg (List.filter · _) (funext fun name => facts.binds_shift n name)

theorem introduces_shift (a : Assignment) :
    (facts.shift n).introduces (a.shift n) = facts.introduces a :=
  congrArg (fun b => a.isReactive && !b) (facts.binds_shift n a.target)

theorem computedFrom_shift (scope : Nat) (seen : List String) (as : List Assignment) :
    (facts.shift n).computedFrom scope seen (as.map (·.shift n)) =
      (facts.computedFrom scope seen as).map (·.shift n) := by
  induction as generalizing seen with
  | nil => rfl
  | cons a as ih =>
    rw [List.map_cons, computedFrom, computedFrom, List.map_cons, dependencies_shift]
    refine congrArg₂ List.cons ?_ (ih _)
    simp [Occurrence.shift, Occurrence.ofName, Occurrence.map_addAnchors, Assignment.shift]

theorem computed_shift (scope : Nat) :
    (facts.shift n).computed scope = (facts.computed scope).map (·.shift n) := by
  have hfilter : (facts.shift n).assignments.filter (facts.shift n).introduces =
      (facts.assignments.filter facts.introduces).map (·.shift n) := by
    rw [shift, List.filter_map]
    exact congrArg _ (congrArg (List.filter · _) (funext fun a => facts.introduces_shift n a))
  rw [computed, hfilter, computedFrom_shift]
  rfl

theorem exportTarget?_shift (e : ExportedName) :
    (facts.shift n).exportTarget? (e.shift n) = (facts.exportTarget? e).map (·.shift n) := by
  have hs : (e.shift n).source = e.source := rfl
  have hl : (e.shift n).localName = e.localName := rfl
  unfold exportTarget?
  rw [hs, hl, declaration?_shift, import?_shift]
  cases e.source with
  | some path => rfl
  | none =>
    cases facts.declaration? e.localName with
    | some d => rfl
    | none => cases facts.import? e.localName <;> rfl

theorem exportTarget_shift (e : ExportedName) : (facts.shift n).exportTarget (e.shift n) =
    (facts.exportTarget e).map fun p => (p.1.shift n, p.2.shift n) := by
  unfold exportTarget
  rw [exportTarget?_shift]
  cases facts.exportTarget? e <;> rfl

theorem importOccurrence_shift (entry : ImportedName) :
    importOccurrence (entry.shift n) = (importOccurrence entry).shift n := by
  simp [importOccurrence, Occurrence.shift, Occurrence.ofName, Occurrence.map_addAnchors,
    ImportedName.shift, ImportedName.shownName]

theorem exportOccurrence_shift (e : ExportedName) (target : ExportTarget) :
    exportOccurrence (e.shift n) (target.shift n) = (exportOccurrence e target).shift n := by
  cases target <;>
    simp [exportOccurrence, Occurrence.shift, Occurrence.ofName, Occurrence.map_addAnchors,
      ExportedName.shift, ImportedName.shift, ImportedName.shownName, ExportTarget.shift]

theorem distinctImports_shift (seen : List String) (entries : List ImportedName) :
    distinctImports seen (entries.map (·.shift n)) = (distinctImports seen entries).map (·.shift n) := by
  induction entries generalizing seen with
  | nil => rfl
  | cons i entries ih =>
    simp only [List.map_cons, distinctImports, ih]
    change (if seen.contains i.localName then _ else _) = _
    split_ifs <;> rfl

theorem resolve_shift (scope : Nat) :
    (facts.shift n).resolve scope = (facts.resolve scope).map (List.map (·.shift n)) := by
  have hexports : (facts.shift n).exports.mapM (facts.shift n).exportTarget =
      (facts.exports.mapM facts.exportTarget).map
        (List.map fun p => (p.1.shift n, p.2.shift n)) :=
    mapM_map_eq_map fun e _ => facts.exportTarget_shift n e
  have himport (target : ExportTarget) : (target.shift n).import? = target.import?.map (·.shift n) := by
    cases target <;> rfl
  unfold resolve
  rw [hexports]
  cases facts.exports.mapM facts.exportTarget with
  | error e => rfl
  | ok exports =>
    refine congrArg Except.ok ?_
    simp only [List.map_append, List.map_map, List.filterMap_map, computed_shift,
      Function.comp_def, himport, exportOccurrence_shift, ← importOccurrence_shift]
    rw [← List.map_filterMap, distinctImports_shift, List.map_map]
    rw [← reassigned_shift]
    rfl

end Facts

end ComponentDoc
