import ComponentDoc.Binding.Definition
import ComponentDoc.Proofs.Shift.Facts

namespace ComponentDoc

open Text Script

def Symbol.shift : Symbol → Nat → Symbol
  | .var init span, n => .var init (span.shift n)
  | .function func ident start, n => .function func (ident.shift n) (n + start)
  | .imported, _ => .imported

def Symbols.shift (symbols : Symbols) (n : Nat) : Symbols :=
  ⟨symbols.entries.map fun p => (p.1, p.2.shift n)⟩

def Resolved.shift : Resolved → Nat → Resolved
  | .expr value, _ => .expr value
  | .function name func ident start, n => .function name func (ident.shift n) (n + start)
  | .unknown, _ => .unknown

namespace Symbols

variable (symbols : Symbols) (n : Nat)

theorem get?_shift (name : String) : (symbols.shift n).get? name = (symbols.get? name).map (·.shift n) := by
  unfold get? shift
  rw [← List.map_reverse, List.find?_map, Option.map_map, Option.map_map]
  rfl

theorem follow_shift (hops : Nat) (name : String) :
    (symbols.shift n).follow hops name = (symbols.follow hops name).map (·.shift n) := by
  induction hops generalizing name with
  | zero => rfl
  | succ hops ih =>
    unfold follow
    rw [get?_shift]
    cases symbols.get? name with
    | none => rfl
    | some symbol =>
      cases symbol with
      | var init span =>
        cases init with
        | none => rfl
        | some init =>
          simp only [Option.map_some, Symbol.shift]
          split
          · exact ih _
          · rfl
      | function func ident start => rfl
      | imported => rfl

theorem resolveName_shift (name : String) :
    (symbols.shift n).resolveName name = (symbols.resolveName name).map (·.shift n) :=
  symbols.follow_shift n maxHops name

theorem resolve_shift (e : Expr) :
    (symbols.shift n).resolve e = (symbols.resolve e).map (·.shift n) := by
  unfold resolve
  split
  · exact symbols.resolveName_shift n _
  · rfl

end Symbols

namespace ScriptBlock

variable (script : ScriptBlock) (n : Nat)

theorem declaratorSymbols_shift (d : Declarator) : (script.shift n).declaratorSymbols d =
    (script.declaratorSymbols d).map fun p => (p.1, p.2.shift n) := by
  unfold declaratorSymbols
  simp only [range_shift]
  split
  · rfl
  · rw [List.map_map]
    rfl

theorem declSymbols_shift (decl : Decl) : (script.shift n).declSymbols decl =
    (script.declSymbols decl).map fun p => (p.1, p.2.shift n) := by
  cases decl with
  | vars start constant declarators =>
    simp only [declSymbols, List.map_flatten, List.map_map]
    exact congrArg (fun f => (List.map f declarators).flatten)
      (funext fun d => script.declaratorSymbols_shift n d)
  | function start name func => simp [declSymbols, Symbol.shift]
  | classDecl name parts => rfl
  | compound parts => rfl

theorem itemSymbols_shift (item : Item) : (script.shift n).itemSymbols item =
    (script.itemSymbols item).map fun p => (p.1, p.2.shift n) := by
  unfold itemSymbols
  simp only [declSymbols_shift]
  split
  · rfl
  · rfl
  · rw [List.map_map]
    rfl
  · rfl

theorem symbols_shift : (script.shift n).symbols = script.symbols.shift n := by
  simp only [symbols, Symbols.shift, List.map_flatten, List.map_map]
  exact congrArg (fun f => Symbols.mk (List.map f script.items).flatten)
    (funext fun item => script.itemSymbols_shift n item)

end ScriptBlock

def Definition.shift (d : Definition) (n : Nat) : Definition :=
  { d with script := d.script.shift n, symbols := d.symbols.shift n, start := n + d.start }

theorem ScriptBlock.defaultExport?_shift (script : ScriptBlock) (n : Nat) :
    (script.shift n).defaultExport? = script.defaultExport?.map fun p => (p.1, n + p.2) := by
  unfold defaultExport?
  simp only [place_shift]
  rw [List.map_findSome?]
  refine congrArg (List.findSome? · _) (funext fun item => ?_)
  rw [Function.comp_apply]
  split <;> rfl

theorem ScriptBlock.definition?_shift (script : ScriptBlock) (n scope : Nat) :
    (script.shift n).definition? scope = (script.definition? scope).map (Option.map (·.shift n)) := by
  unfold definition?
  rw [defaultExport?_shift]
  cases script.defaultExport? with
  | none => rfl
  | some p =>
    obtain ⟨value, start⟩ := p
    simp only [Option.map_some, symbols_shift, Symbols.resolve_shift]
    cases script.symbols.resolve value with
    | error e => rfl
    | ok resolved =>
      cases resolved with
      | expr value => cases value <;> rfl
      | function name func ident start => rfl
      | unknown => rfl

def MemberValue.shift : MemberValue → Nat → MemberValue
  | .function func reference, n =>
    .function func (reference.map fun r => { r with ident := r.ident.shift n, start := n + r.start })
  | .object members, _ => .object members
  | .other, _ => .other

namespace Definition

variable (d : Definition) (n : Nat)

theorem valueOf_shift (resolved : Resolved) : valueOf (resolved.shift n) = (valueOf resolved).shift n := by
  cases resolved with
  | expr value =>
    simp only [Resolved.shift, valueOf]
    split <;> rfl
  | function name func ident start => rfl
  | unknown => rfl

theorem memberValue_shift (m : Member) :
    (d.shift n).memberValue m = (d.memberValue m).map (·.shift n) := by
  have hvalue (resolved : Except ExtractError Resolved) :
      (resolved.map (·.shift n)).map valueOf = (resolved.map valueOf).map (·.shift n) := by
    cases resolved with
    | error e => rfl
    | ok resolved => exact congrArg Except.ok (valueOf_shift n resolved)
  cases m with
  | keyValue span key value =>
    exact (congrArg (Except.map valueOf) (d.symbols.resolve_shift n value)).trans (hvalue _)
  | shorthand id =>
    exact (congrArg (Except.map valueOf) (d.symbols.resolveName_shift n id.name)).trans (hvalue _)
  | method span key func => rfl
  | getter span key func => rfl
  | setter span key func => rfl
  | withDefault span id value => rfl
  | spread span inner => rfl

theorem returnedObject?_shift (func : Func) :
    (d.shift n).returnedObject? func = d.returnedObject? func := by
  have hresolve (value : Expr) : (d.shift n).symbols.resolve value = _ := d.symbols.resolve_shift n value
  refine congrArg (func.returned?.bind ·) (funext fun value => ?_)
  rw [hresolve]
  cases d.symbols.resolve value with
  | error e => rfl
  | ok resolved => cases resolved <;> rfl

theorem map_memberValue_shift {α : Type} {f g : MemberValue → α} (h : ∀ value, f (value.shift n) = g value)
    (m : Member) : ((d.shift n).memberValue m).map f = (d.memberValue m).map g := by
  rw [memberValue_shift]
  cases d.memberValue m with
  | error e => rfl
  | ok value => exact congrArg Except.ok (h value)

theorem dataMembers_shift : (d.shift n).dataMembers = d.dataMembers := by
  have hmember : (d.shift n).member? "data" = d.member? "data" := rfl
  unfold dataMembers
  rw [hmember]
  cases d.member? "data" with
  | none => rfl
  | some m =>
    refine d.map_memberValue_shift n (fun value => ?_) m
    cases value with
    | object members => rfl
    | function func reference => exact congrArg (Option.getD · []) (d.returnedObject?_shift n func)
    | other => rfl

theorem sectionMembers_shift (name : String) :
    (d.shift n).sectionMembers name = d.sectionMembers name := by
  have hmember : (d.shift n).member? name = d.member? name := rfl
  unfold sectionMembers
  rw [hmember]
  cases d.member? name with
  | none => rfl
  | some m =>
    refine d.map_memberValue_shift n (fun value => ?_) m
    cases value <;> rfl

theorem occurrence_shift (m : Member) (name : String) (kind : EntityKind) :
    (d.shift n).occurrence m name kind = (d.occurrence m name kind).shift n := by
  simp [occurrence, shift, Occurrence.shift, Occurrence.ofName, Occurrence.map_addAnchors]

theorem dataOccurrence_shift (m : Member) :
    (d.shift n).dataOccurrence m = (d.dataOccurrence m).map (·.shift n) := by
  have hname (name : String) : (d.shift n).symbols.resolveName name = _ :=
    d.symbols.resolveName_shift n name
  unfold dataOccurrence
  simp only [occurrence_shift, Option.map_map]
  refine congrArg (Option.map · _) (funext fun name => ?_)
  rw [Function.comp_apply]
  cases m with
  | keyValue span key value => rfl
  | method span key func => rfl
  | shorthand id =>
    simp only [hname]
    cases d.symbols.resolveName id.name with
    | error e => rfl
    | ok resolved => cases resolved <;> rfl
  | getter span key func => rfl
  | setter span key func => rfl
  | withDefault span id value => rfl
  | spread span inner => rfl

theorem data_shift : (d.shift n).data = d.data.map (List.map (·.shift n)) := by
  unfold data
  rw [dataMembers_shift]
  cases d.dataMembers with
  | error e => rfl
  | ok members =>
    refine congrArg Except.ok ?_
    rw [List.map_filterMap]
    exact congrArg (List.filterMap · _) (funext fun m => d.dataOccurrence_shift n m)

theorem computedOccurrence_shift (m : Member) :
    (d.shift n).computedOccurrence m = (d.computedOccurrence m).map (Option.map (·.shift n)) := by
  unfold computedOccurrence
  simp only [occurrence_shift, memberValue_shift]
  cases m.name? with
  | none => rfl
  | some name =>
    cases d.memberValue m with
    | error e => rfl
    | ok value => cases value <;> rfl

/-- What is made of the members of a section, one after another. -/
theorem mapM_sectionMembers_shift {β : Type} {f f' : Member → Except ExtractError β} {move : β → β}
    (hf : ∀ m, f' m = (f m).map move) {join : List β → List Occurrence}
    (hjoin : ∀ found, join (found.map move) = (join found).map (·.shift n)) (name : String) :
    (do return join (← (← (d.shift n).sectionMembers name).mapM f')) =
      (do return join (← (← d.sectionMembers name).mapM f) : Except ExtractError _).map
        (List.map (·.shift n)) := by
  rw [sectionMembers_shift]
  cases d.sectionMembers name with
  | error e => rfl
  | ok members =>
    have h : members.mapM f' = (members.mapM f).map (List.map move) := mapM_eq_map fun m _ => hf m
    change (members.mapM f' >>= _) = (members.mapM f >>= _).map _
    rw [h]
    cases members.mapM f with
    | error e => rfl
    | ok found => exact congrArg Except.ok (hjoin found)

theorem computed_shift : (d.shift n).computed = d.computed.map (List.map (·.shift n)) := by
  refine d.mapM_sectionMembers_shift n (d.computedOccurrence_shift n) (fun found => ?_) "computed"
  rw [List.filterMap_map, List.map_filterMap]
  rfl

theorem methodOccurrences_shift (m : Member) :
    (d.shift n).methodOccurrences m = (d.methodOccurrences m).map (List.map (·.shift n)) := by
  unfold methodOccurrences
  simp only [occurrence_shift, memberValue_shift]
  cases m.name? with
  | none => rfl
  | some name =>
    cases d.memberValue m with
    | error e => rfl
    | ok value =>
      cases value with
      | function func reference =>
        cases reference with
        | none => rfl
        | some ref =>
          simp [Except.map, MemberValue.shift, shift, Occurrence.shift, Occurrence.ofName,
            Occurrence.map_addAnchors]
      | object members => rfl
      | other => rfl

theorem methods_shift : (d.shift n).methods = d.methods.map (List.map (·.shift n)) :=
  d.mapM_sectionMembers_shift n (d.methodOccurrences_shift n) (fun _ => List.map_flatten.symm) "methods"

end Definition

end ComponentDoc
