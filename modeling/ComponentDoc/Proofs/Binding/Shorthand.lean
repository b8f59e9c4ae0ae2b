import ComponentDoc.Proofs.Script.Respelled
import ComponentDoc.Proofs.Shift.Dialect

namespace ComponentDoc

open Text (Span)
open Script

/-- Every shorthand member is written out, and all places are forgotten. -/
def Script.Respelling.spelledOut : Respelling where
  place := fun _ => 0
  span := fun _ => ⟨0, 0⟩
  shorthand := fun id => .keyValue ⟨0, 0⟩ (.name id) (.ident id)
  arguments := fun _ arguments => arguments

open Script.Respelling (spelledOut)

def ScriptBlock.plain (script : ScriptBlock) : ScriptBlock :=
  { script.respell spelledOut with offset := 0, comments := [] }

def Symbol.plain : Symbol → Symbol
  | .var init _ => .var (init.map (·.respell spelledOut)) ⟨0, 0⟩
  | .function func _ _ => .function (func.respell spelledOut) ⟨0, 0⟩ 0
  | .imported => .imported

def Symbols.plain (symbols : Symbols) : Symbols :=
  ⟨symbols.entries.map fun p => (p.1, p.2.plain)⟩

def Resolved.plain : Resolved → Resolved
  | .expr value => .expr (value.respell spelledOut)
  | .function name func _ _ => .function name (func.respell spelledOut) ⟨0, 0⟩ 0
  | .unknown => .unknown

def Definition.plain (d : Definition) : Definition where
  script := d.script.plain
  scope := d.scope
  symbols := d.symbols.plain
  members := d.members.map (·.respell spelledOut)
  start := 0

def MemberValue.plain : MemberValue → MemberValue
  | .function func reference =>
    .function (func.respell spelledOut) (reference.map fun f => ⟨f.name, ⟨0, 0⟩, 0⟩)
  | .object members => .object (members.map (·.respell spelledOut))
  | .other => .other

def ParamBinding.plain (p : ParamBinding) : ParamBinding :=
  { p with default := p.default.map (·.respell spelledOut) }

namespace Occurrence

/-- The occurrence without its own places. -/
def placeless (o : Occurrence) : Occurrence :=
  { o with ident := ⟨0, 0⟩, anchors := [], trailing := o.trailing.map fun _ => 0 }

/-- The occurrence without any places, and with its expressions written out. -/
def plain (o : Occurrence) : Occurrence :=
  { o.placeless with
    init := o.init.map (·.respell spelledOut)
    reassigned := o.reassigned.map (·.respell spelledOut)
    params := o.params.map (·.plain) }

/-- The occurrence without the value it starts from. -/
def withoutInit (o : Occurrence) : Occurrence :=
  { o with init := none }

theorem inferredType_plain (o : Occurrence) : o.plain.inferredType = o.inferredType := by
  have hinit : typeOf? (o.init.map (·.respell spelledOut)) = typeOf? o.init := by
    cases o.init with
    | none => rfl
    | some value => exact value.type_respell _
  have hreassigned : (o.reassigned.map (·.respell spelledOut)).bind Expr.stringUnion? =
      o.reassigned.bind Expr.stringUnion? := by
    cases o.reassigned with
    | none => rfl
    | some value => exact value.stringUnion?_respell _
  rw [inferredType, inferredType, bindingType, bindingType]
  exact congrArg₂ Option.getD hreassigned hinit

end Occurrence

/-- Steps that agree up to what is kept of their results, on members that are changed. -/
theorem map_mapM_map_eq {ε α α' β β' γ : Type} {f : α → Except ε β} {f' : α' → Except ε β'} {change : α → α'}
    {g : β → γ} {g' : β' → γ} {xs : List α} (hf : ∀ x ∈ xs, (f' (change x)).map g' = (f x).map g) :
    ((xs.map change).mapM f').map (List.map g') = (xs.mapM f).map (List.map g) := by
  have hstep {δ : Type} (h : δ → γ) (x : Except ε δ) (rest : Except ε (List δ)) :
      (do return (← x) :: (← rest) : Except ε (List δ)).map (List.map h) =
        (do return (← x.map h) :: (← rest.map (List.map h)) : Except ε (List γ)) := by
    cases x with
    | error e => rfl
    | ok y => cases rest <;> rfl
  induction xs with
  | nil => rfl
  | cons x xs ih =>
    rw [List.map_cons, List.mapM_cons, List.mapM_cons, hstep, hstep, hf x List.mem_cons_self,
      ih fun y hy => hf y (List.mem_cons_of_mem _ hy)]

/-- What is kept of results that are joined can be told from what is kept of each. -/
theorem map_return_join {ε β γ δ κ : Type} {join : List β → List δ} {join' : List γ → List κ} {h : δ → κ} {k : β → γ}
    (hjoin : ∀ found, (join found).map h = join' (found.map k)) (found : Except ε (List β)) :
    (do return join (← found) : Except ε (List δ)).map (List.map h) = (found.map (List.map k)).map join' := by
  cases found with
  | error e => rfl
  | ok found => exact congrArg Except.ok (hjoin found)

/-- Lists that agree in one way agree in another just if each two members at the same place do. -/
theorem map_eq_map_iff_of_zip {ε α β γ : Type} {x x' : Except ε (List α)} {f : α → β} {g : α → γ} {R : α → α → Prop}
    (h : x.map (List.map f) = x'.map (List.map f)) (hR : ∀ a a', f a = f a' → (g a = g a' ↔ R a a')) :
    x.map (List.map g) = x'.map (List.map g) ↔
      ∀ as as', x = .ok as → x' = .ok as' → ∀ a a', (a, a') ∈ as.zip as' → R a a' := by
  have hmap {δ : Type} (k : α → δ) (as as' : List α) :
      as.map k = as'.map k ↔ List.Forall₂ (fun a a' => k a = k a') as as' := by
    rw [← List.forall₂_eq_eq_eq, List.forall₂_map_left_iff, List.forall₂_map_right_iff]
  cases x with
  | error e =>
    cases x' with
    | error e' =>
      cases h
      simp
    | ok as' => cases h
  | ok as =>
    cases x' with
    | error e' => cases h
    | ok as' =>
      obtain ⟨hlength, hf⟩ := List.forall₂_iff_zip.mp ((hmap f as as').mp (Except.ok.inj h))
      constructor
      · rintro heq _ _ ⟨⟩ ⟨⟩ a a' hmem
        have hg := List.forall₂_iff_zip.mp ((hmap g as as').mp (Except.ok.inj heq))
        exact (hR a a' (hf hmem)).mp (hg.2 hmem)
      · intro hall
        refine congrArg Except.ok ((hmap g as as').mpr (List.forall₂_iff_zip.mpr ⟨hlength, fun hmem => ?_⟩))
        exact (hR _ _ (hf hmem)).mpr (hall as as' rfl rfl _ _ hmem)

namespace Symbols

variable (symbols : Symbols)

theorem get?_plain (name : String) : symbols.plain.get? name = (symbols.get? name).map (·.plain) := by
  unfold get? plain
  rw [← List.map_reverse, List.find?_map, Option.map_map, Option.map_map]
  rfl

theorem follow_plain (hops : Nat) (name : String) :
    symbols.plain.follow hops name = (symbols.follow hops name).map (·.plain) := by
  induction hops generalizing name with
  | zero => rfl
  | succ hops ih =>
    unfold follow
    rw [get?_plain]
    cases symbols.get? name with
    | none => rfl
    | some symbol =>
      cases symbol with
      | var init span =>
        cases init with
        | none => rfl
        | some init =>
          simp only [Option.map_some, Symbol.plain, Expr.unwrap_respell]
          cases init.unwrap with
          | ident id => exact ih id.name
          | optional link => cases link <;> rfl
          | _ => rfl
      | function func ident start => rfl
      | imported => rfl

theorem resolveName_plain (name : String) :
    symbols.plain.resolveName name = (symbols.resolveName name).map (·.plain) :=
  symbols.follow_plain maxHops name

theorem resolve_plain (e : Expr) :
    symbols.plain.resolve (e.respell spelledOut) = (symbols.resolve e).map (·.plain) := by
  unfold resolve
  rw [Expr.unwrap_respell]
  cases e.unwrap with
  | ident id => exact symbols.resolveName_plain id.name
  | optional link => cases link <;> rfl
  | _ => rfl

end Symbols

namespace ScriptBlock

variable (script : ScriptBlock)

theorem declaratorSymbols_plain (d : Declarator) : script.plain.declaratorSymbols (d.respell spelledOut) =
    (script.declaratorSymbols d).map fun p => (p.1, p.2.plain) := by
  have hnames (span : Span) (pattern : Pattern) :
      (pattern.respell spelledOut).names.map (fun id => (id.name, Symbol.var none ⟨0, 0⟩)) =
        (pattern.names.map fun id => (id.name, Symbol.var none (script.range span))).map
          fun p => (p.1, p.2.plain) := by
    rw [Pattern.names_respell, List.map_map, List.map_map]
    rfl
  obtain ⟨span, pattern, init⟩ := d
  cases pattern with
  | ident id type => cases init <;> rfl
  | _ => cases init <;> exact hnames span _

theorem declSymbols_plain (decl : Decl) : script.plain.declSymbols (decl.respell spelledOut) =
    (script.declSymbols decl).map fun p => (p.1, p.2.plain) := by
  cases decl with
  | vars start constant declarators =>
    simp only [declSymbols, Decl.respell, declaratorsRespell_eq, List.map_flatten, List.map_map]
    exact congrArg (fun f => (List.map f declarators).flatten)
      (funext fun d => script.declaratorSymbols_plain d)
  | _ => rfl

theorem itemSymbols_plain (item : Item) : script.plain.itemSymbols (item.respell spelledOut) =
    (script.itemSymbols item).map fun p => (p.1, p.2.plain) := by
  obtain ⟨start, kind⟩ := item
  cases kind with
  | statement t =>
    cases t with
    | declaration decl => exact script.declSymbols_plain decl
    | «return» value => cases value <;> rfl
    | _ => rfl
  | exportDecl decl => exact script.declSymbols_plain decl
  | imports entry =>
    simp only [itemSymbols, Item.respell, ItemKind.respell, Import.respell, List.map_map]
    rfl
  | _ => rfl

theorem symbols_plain : script.plain.symbols = script.symbols.plain := by
  simp only [symbols, Symbols.plain, List.map_flatten, List.map_map]
  rw [plain, respell, List.map_map]
  exact congrArg (fun f => Symbols.mk (List.map f script.items).flatten)
    (funext fun item => script.itemSymbols_plain item)

end ScriptBlock

theorem ScriptBlock.defaultExport?_plain (script : ScriptBlock) :
    script.plain.defaultExport? = script.defaultExport?.map fun p => (p.1.respell spelledOut, 0) := by
  unfold defaultExport?
  rw [List.map_findSome?, plain, respell, List.findSome?_map]
  refine congrArg (List.findSome? · _) (funext fun item => ?_)
  obtain ⟨start, kind⟩ := item
  cases kind <;> rfl

theorem ScriptBlock.definition?_plain (script : ScriptBlock) (scope : Nat) :
    script.plain.definition? scope = (script.definition? scope).map (Option.map (·.plain)) := by
  unfold definition?
  rw [defaultExport?_plain]
  cases script.defaultExport? with
  | none => rfl
  | some p =>
    obtain ⟨value, start⟩ := p
    simp only [Option.map_some, symbols_plain, Symbols.resolve_plain]
    cases script.symbols.resolve value with
    | error e => rfl
    | ok resolved =>
      cases resolved with
      | expr value =>
        cases value with
        | object start members =>
          simp only [Except.map, Resolved.plain, Expr.respell, membersRespell_eq]
          rfl
        | optional link => cases link <;> rfl
        | _ => rfl
      | function name func ident start => rfl
      | unknown => rfl

theorem Script.Member.name?_spelledOut (m : Member) : (m.respell spelledOut).name? = m.name? := by
  cases m with
  | keyValue span key value => exact key.name?_respell _
  | method span key func => exact key.name?_respell _
  | getter span key func => exact key.name?_respell _
  | _ => rfl

theorem readNames_respell (r : Respelling) (func : Func) :
    Definition.readNames (func.respell r) = Definition.readNames func := by
  have hproperty (p : PatternProperty) : Definition.propertyName? (p.respell r) = Definition.propertyName? p := by
    cases p with
    | keyValue key value => exact key.name?_respell r
    | shorthand id default => cases default <;> rfl
    | rest start inner => rfl
  have hplain (p : Pattern) : Definition.plainName? (p.respell r) = Definition.plainName? p := by
    cases p with
    | withDefault inner value => cases inner <;> rfl
    | _ => rfl
  have hparams (ps : List Pattern) :
      (ps.map (·.respell r)).filterMap Definition.plainName? = ps.filterMap Definition.plainName? := by
    rw [List.filterMap_map]
    exact congrArg (List.filterMap · ps) (funext hplain)
  unfold Definition.readNames
  rw [Func.params_respell]
  cases func.params with
  | nil => rfl
  | cons p ps =>
    cases p with
    | object start properties type =>
      simp only [List.map_cons, Pattern.respell, propertiesRespell_eq, List.filterMap_map]
      exact congrArg (List.filterMap · properties) (funext hproperty)
    | _ => exact hparams (_ :: ps)

theorem Script.Pattern.params_plain (p : Pattern) : (p.respell spelledOut).params = p.params.map (·.plain) := by
  have hnames (ids : List Ident) :
      (ids.map (·.respell spelledOut)).map (fun id => ParamBinding.mk id.name none false) =
        (ids.map fun id => ParamBinding.mk id.name none false).map (·.plain) := by
    rw [List.map_map, List.map_map]
    rfl
  cases p with
  | ident id type => rfl
  | hole => rfl
  | target inner => rfl
  | array start elements type =>
    rw [Pattern.respell, params, params, patternsNames_respell, hnames]
  | object start properties type =>
    rw [Pattern.respell, params, params, propertiesNames_respell, hnames]
  | rest start inner type =>
    rw [Pattern.respell, params, params, inner.params_plain, List.map_map, List.map_map]
    rfl
  | withDefault inner value =>
    rw [Pattern.respell, params, params, inner.params_plain, List.map_map, List.map_map]
    rfl
termination_by sizeOf p

theorem Script.Func.paramBindings_plain (func : Func) :
    (func.respell spelledOut).paramBindings = func.paramBindings.map (·.plain) := by
  rw [paramBindings, paramBindings, Func.params_respell, List.map_map, List.map_flatten, List.map_map]
  exact congrArg (fun f => (List.map f func.params).flatten) (funext Pattern.params_plain)

namespace Definition

variable (d : Definition)

theorem member?_plain (name : String) : d.plain.member? name = (d.member? name).map (·.respell spelledOut) := by
  rw [member?, member?, plain, List.find?_map]
  refine congrArg (fun p => Option.map _ (List.find? p d.members)) (funext fun m => ?_)
  rw [Function.comp_apply, Member.name?_spelledOut]

theorem valueOf_plain (resolved : Resolved) : valueOf resolved.plain = (valueOf resolved).plain := by
  cases resolved with
  | expr value =>
    simp only [Resolved.plain, valueOf, Expr.func?_respell]
    cases value.func? with
    | some func => rfl
    | none =>
      cases value with
      | object start members =>
        simp only [Option.map_none, Expr.respell, membersRespell_eq]
        rfl
      | optional link => cases link <;> rfl
      | _ => rfl
  | function name func ident start => rfl
  | unknown => rfl

/-- A name that is written out stands for what the shorthand stood for. -/
theorem memberValue_plain (m : Member) :
    d.plain.memberValue (m.respell spelledOut) = (d.memberValue m).map (·.plain) := by
  have hvalue (resolved : Except ExtractError Resolved) :
      (resolved.map (·.plain)).map valueOf = (resolved.map valueOf).map (·.plain) := by
    cases resolved with
    | error e => rfl
    | ok resolved => exact congrArg Except.ok (valueOf_plain resolved)
  cases m with
  | keyValue span key value =>
    exact (congrArg (Except.map valueOf) (d.symbols.resolve_plain value)).trans (hvalue _)
  | shorthand id =>
    exact (congrArg (Except.map valueOf) (d.symbols.resolveName_plain id.name)).trans (hvalue _)
  | _ => rfl

theorem returnedObject?_plain (func : Func) :
    d.plain.returnedObject? (func.respell spelledOut) =
      (d.returnedObject? func).map (List.map (·.respell spelledOut)) := by
  have hresolve (value : Expr) : d.plain.symbols.resolve (value.respell spelledOut) = _ :=
    d.symbols.resolve_plain value
  unfold returnedObject?
  rw [Func.returned?_respell]
  cases func.returned? with
  | none => rfl
  | some value =>
    simp only [Option.map_some, bind, Option.bind_some, Expr.unwrap_respell, hresolve]
    cases value.unwrap with
    | object start members => exact congrArg some (membersRespell_eq _ members)
    | ident id =>
      simp only [Expr.respell]
      cases d.symbols.resolve value with
      | error e => rfl
      | ok resolved =>
        cases resolved with
        | expr value =>
          cases value with
          | object start members => exact congrArg some (membersRespell_eq _ members)
          | optional link => cases link <;> rfl
          | _ => rfl
        | function name func ident start => rfl
        | unknown => rfl
    | optional link => cases link <;> rfl
    | _ => rfl

theorem map_memberValue_plain {f g : MemberValue → List Member}
    (h : ∀ value, f value.plain = (g value).map (·.respell spelledOut)) (m : Member) :
    (d.plain.memberValue (m.respell spelledOut)).map f =
      ((d.memberValue m).map g).map (List.map (·.respell spelledOut)) := by
  rw [memberValue_plain]
  cases d.memberValue m with
  | error e => rfl
  | ok value => exact congrArg Except.ok (h value)

theorem dataMembers_plain : d.plain.dataMembers = d.dataMembers.map (List.map (·.respell spelledOut)) := by
  unfold dataMembers
  rw [member?_plain]
  cases d.member? "data" with
  | none => rfl
  | some m =>
    refine d.map_memberValue_plain (fun value => ?_) m
    cases value with
    | object members => rfl
    | function func reference =>
      simp only [MemberValue.plain, returnedObject?_plain]
      cases d.returnedObject? func <;> rfl
    | other => rfl

theorem sectionMembers_plain (name : String) :
    d.plain.sectionMembers name = (d.sectionMembers name).map (List.map (·.respell spelledOut)) := by
  unfold sectionMembers
  rw [member?_plain]
  cases d.member? name with
  | none => rfl
  | some m =>
    refine d.map_memberValue_plain (fun value => ?_) m
    cases value <;> rfl

theorem computedOccurrence_plain (m : Member) :
    (d.plain.computedOccurrence (m.respell spelledOut)).map (Option.map (·.placeless)) =
      (d.computedOccurrence m).map (Option.map (·.plain)) := by
  unfold computedOccurrence
  rw [Member.name?_spelledOut, memberValue_plain]
  cases m.name? with
  | none => rfl
  | some name =>
    cases d.memberValue m with
    | error e => rfl
    | ok value =>
      cases value with
      | function func reference =>
        simp only [Except.map, MemberValue.plain, Func.expression?_respell, readNames_respell]
        rfl
      | object members => rfl
      | other => rfl

theorem methodOccurrences_plain (m : Member) :
    (d.plain.methodOccurrences (m.respell spelledOut)).map (List.map (·.placeless)) =
      (d.methodOccurrences m).map (List.map (·.plain)) := by
  unfold methodOccurrences
  rw [Member.name?_spelledOut, memberValue_plain]
  cases m.name? with
  | none => rfl
  | some name =>
    cases d.memberValue m with
    | error e => rfl
    | ok value =>
      cases value with
      | function func reference =>
        cases reference with
        | none =>
          simp only [Except.map, MemberValue.plain, Option.map_none, Func.paramBindings_plain]
          rfl
        | some reference =>
          simp only [Except.map, MemberValue.plain, Option.map_some, Func.paramBindings_plain]
          rfl
      | object members => rfl
      | other => rfl

/-- A data member is listed alike, the value it starts from apart. -/
theorem dataOccurrence_plain (m : Member) :
    (d.plain.dataOccurrence (m.respell spelledOut)).map (·.placeless.withoutInit) =
      (d.dataOccurrence m).map (·.plain.withoutInit) := by
  unfold dataOccurrence
  rw [Member.name?_spelledOut, Option.map_map, Option.map_map]
  refine congrArg (Option.map · m.name?) (funext fun name => ?_)
  simp only [Function.comp_apply]
  cases m with
  | shorthand id =>
    dsimp only
    cases d.symbols.resolveName id.name with
    | error e => rfl
    | ok resolved => cases resolved <;> rfl
  | _ => rfl

/-- What is made of the members of a section, one after another. -/
theorem mapM_sectionMembers_plain {β γ : Type} {f f' : Member → Except ExtractError β} {g g' : β → γ}
    (hf : ∀ m, (f' (m.respell spelledOut)).map g' = (f m).map g) {join : List β → List Occurrence}
    {join' : List γ → List Occurrence} (hjoin : ∀ found, (join found).map (·.plain) = join' (found.map g))
    (hjoin' : ∀ found, (join found).map (·.placeless) = join' (found.map g')) (name : String) :
    (do return join (← (← d.plain.sectionMembers name).mapM f') : Except ExtractError _).map
        (List.map (·.placeless)) =
      (do return join (← (← d.sectionMembers name).mapM f) : Except ExtractError _).map (List.map (·.plain)) := by
  rw [sectionMembers_plain]
  cases d.sectionMembers name with
  | error e => rfl
  | ok members =>
    have h : ((members.map (·.respell spelledOut)).mapM f').map (List.map g') = (members.mapM f).map (List.map g) :=
      map_mapM_map_eq fun m _ => hf m
    exact (map_return_join hjoin' _).trans ((congrArg (Except.map join') h).trans (map_return_join hjoin _).symm)

theorem computed_plain : d.plain.computed.map (List.map (·.placeless)) = d.computed.map (List.map (·.plain)) := by
  have hjoin (h : Occurrence → Occurrence) (found : List (Option Occurrence)) :
      (found.filterMap id).map h = (found.map (Option.map h)).filterMap id := by
    rw [List.filterMap_map, List.map_filterMap]
    rfl
  exact d.mapM_sectionMembers_plain d.computedOccurrence_plain (hjoin _) (hjoin _) "computed"

theorem methods_plain : d.plain.methods.map (List.map (·.placeless)) = d.methods.map (List.map (·.plain)) :=
  d.mapM_sectionMembers_plain d.methodOccurrences_plain (fun _ => List.map_flatten) (fun _ => List.map_flatten)
    "methods"

theorem data_plain : d.plain.data.map (List.map (·.placeless.withoutInit)) =
    d.data.map (List.map (·.plain.withoutInit)) := by
  unfold data
  rw [dataMembers_plain]
  cases d.dataMembers with
  | error e => rfl
  | ok members =>
    simp only [Except.map, List.filterMap_map, List.map_filterMap]
    exact congrArg (fun f => Except.ok (List.filterMap f members)) (funext fun m => d.dataOccurrence_plain m)

end Definition

namespace Component

def plain (c : Component) : Component :=
  { c with scripts := c.scripts.map (·.plain) }

/-- The scripts hold the same code, but shorthand members may be written out and everything may stand elsewhere. -/
def SpelledLike (c c' : Component) : Prop :=
  c.scripts.map (·.plain) = c'.scripts.map (·.plain)

/-- What is made of the definition objects, one after another. -/
def gathered {α : Type} (c : Component) (list : Definition → Except ExtractError (List α)) :
    Except ExtractError (List α) := do
  let definitions ← c.definitions
  return (← definitions.mapM list).flatten

theorem definitions_plain (c : Component) : c.plain.definitions = c.definitions.map (List.map (·.plain)) := by
  have h : (c.plain.scopes.mapM fun p : Nat × ScriptBlock => p.2.definition? p.1) =
      (c.scopes.mapM fun p : Nat × ScriptBlock => p.2.definition? p.1).map (List.map (Option.map (·.plain))) := by
    rw [scopes, plain, numbered_map]
    exact mapM_map_eq_map fun p _ => p.2.definition?_plain p.1
  unfold definitions
  rw [h]
  cases c.scopes.mapM fun p : Nat × ScriptBlock => p.2.definition? p.1 with
  | error e => rfl
  | ok found =>
    refine congrArg Except.ok ?_
    rw [List.filterMap_map, List.map_filterMap]
    rfl

/-- Lists that are made of definitions agree, up to what is kept of their members, if they do for each definition. -/
theorem map_gathered_congr {α α' β : Type} {c c' : Component} {list : Definition → Except ExtractError (List α)}
    {list' : Definition → Except ExtractError (List α')} {change : Definition → Definition} {g : α → β} {g' : α' → β}
    (hdefinitions : c'.definitions = c.definitions.map (List.map change))
    (hlist : ∀ d, (list' (change d)).map (List.map g') = (list d).map (List.map g)) :
    (c'.gathered list').map (List.map g') = (c.gathered list).map (List.map g) := by
  unfold gathered
  rw [hdefinitions]
  cases c.definitions with
  | error e => rfl
  | ok definitions =>
    have h : ((definitions.map change).mapM list').map (List.map (List.map g')) =
        (definitions.mapM list).map (List.map (List.map g)) := map_mapM_map_eq fun d _ => hlist d
    exact (map_return_join (fun _ => List.map_flatten) _).trans
      ((congrArg (Except.map List.flatten) h).trans (map_return_join (fun _ => List.map_flatten) _).symm)

/-- Lists that can be told from definitions with all members written out are the same. -/
theorem SpelledLike.map_gathered_eq {c c' : Component} (h : c.SpelledLike c') {α β : Type}
    {list : Definition → Except ExtractError (List α)} {g g' : α → β}
    (hlist : ∀ d : Definition, (list d.plain).map (List.map g') = (list d).map (List.map g)) :
    (c.gathered list).map (List.map g) = (c'.gathered list).map (List.map g) := by
  have hplain : c.plain.gathered list = c'.plain.gathered list := by
    unfold gathered definitions scopes
    rw [show c.plain.scripts = c'.plain.scripts from h]
  rw [← map_gathered_congr c.definitions_plain hlist, ← map_gathered_congr c'.definitions_plain hlist, hplain]

end Component

namespace Definition

/-- The type of the value that a name stands for, if it stands for one. -/
def nameType (d : Definition) (name : String) : TypeDescriptor :=
  match d.symbols.resolveName name with
  | .ok (.expr value) => value.type
  | _ => .any

/-- The type by which a data member is listed. -/
def dataType (d : Definition) : Member → TypeDescriptor
  | .keyValue _ _ value => value.type
  | .shorthand id => d.nameType id.name
  | _ => .any

/-- The members that are listed as data, with the definition they belong to. -/
def dataSources (d : Definition) : Except ExtractError (List (Definition × Member)) :=
  d.dataMembers.map fun members => (members.filter (·.name?.isSome)).map (d, ·)

theorem inferredType_dataOccurrence (d : Definition) (m : Member) :
    (d.dataOccurrence m).map (·.inferredType) = if m.name?.isSome then some (d.dataType m) else none := by
  unfold dataOccurrence
  cases hname : m.name? with
  | none => rfl
  | some name =>
    cases m with
    | shorthand id =>
      simp only [Option.map_some, Option.isSome_some, if_true, dataType, nameType]
      cases d.symbols.resolveName id.name with
      | error e => rfl
      | ok resolved => cases resolved <;> rfl
    | _ => rfl

theorem map_inferredType_data (d : Definition) :
    d.data.map (List.map (·.inferredType)) = d.dataSources.map (List.map fun p => p.1.dataType p.2) := by
  unfold data dataSources
  cases d.dataMembers with
  | error e => rfl
  | ok members =>
    simp only [Except.map, List.map_filterMap, inferredType_dataOccurrence, List.map_map]
    rw [← List.filterMap_eq_filter, List.map_filterMap]
    refine congrArg (fun f => Except.ok (List.filterMap f members)) (funext fun m => ?_)
    cases hname : m.name? <;> simp [hname, Option.guard]

theorem dataSources_plain (d : Definition) :
    d.plain.dataSources = d.dataSources.map (List.map fun p => (p.1.plain, p.2.respell spelledOut)) := by
  unfold dataSources
  rw [dataMembers_plain]
  cases d.dataMembers with
  | error e => rfl
  | ok members =>
    simp only [Except.map, List.filter_map, List.map_map, Function.comp_def, Member.name?_spelledOut]

theorem nameType_plain (d : Definition) (name : String) : d.plain.nameType name = d.nameType name := by
  rw [nameType, nameType, plain, Symbols.resolveName_plain]
  cases d.symbols.resolveName name with
  | error e => rfl
  | ok resolved =>
    cases resolved with
    | expr value => exact value.type_respell _
    | _ => rfl

/-- The name of the member stands for no value of a known type. -/
def StandsForUntyped (d : Definition) (m : Member) : Prop :=
  ∀ name value, m.name? = some name → d.symbols.resolveName name = .ok (.expr value) → value.type = .any

theorem standsForUntyped_iff {d : Definition} {m : Member} {name : String} (hname : m.name? = some name) :
    d.StandsForUntyped m ↔ d.nameType name = .any := by
  unfold StandsForUntyped nameType
  constructor
  · intro h
    split
    next value hvalue => exact h name value hname hvalue
    next => rfl
  · intro h name' value hname' hvalue
    obtain rfl : name = name' := Option.some.inj (hname.symm.trans hname')
    rw [hvalue] at h
    exact h

end Definition

/-- The member is a name that is also its value. -/
def Script.Member.isShorthand : Member → Bool
  | .shorthand _ => true
  | _ => false

/-- The type of the value that is written out in a member. -/
def Script.Member.valueType : Member → TypeDescriptor
  | .keyValue _ _ value => value.type
  | _ => .any

namespace Definition

theorem dataType_of_isShorthand {m : Member} (hm : m.isShorthand = true) : ∃ name, m.name? = some name ∧
    (m.respell spelledOut).valueType = .any ∧ ∀ d : Definition, d.dataType m = d.nameType name := by
  cases m with
  | shorthand id => exact ⟨id.name, rfl, rfl, fun _ => rfl⟩
  | _ => cases hm

theorem dataType_of_not_isShorthand {m : Member} (hm : m.isShorthand = false) (d : Definition) :
    d.dataType m = (m.respell spelledOut).valueType := by
  cases m with
  | keyValue span key value => exact (value.type_respell _).symm
  | shorthand id => cases hm
  | _ => rfl

/-- One member in two ways of writing it: its type stays unless the name in it stands for a value of a known type and
only one of them is shorthand. -/
theorem dataType_eq_iff {d d' : Definition} {m m' : Member} (hd : d.plain = d'.plain)
    (hm : m.respell spelledOut = m'.respell spelledOut) :
    d.dataType m = d'.dataType m' ↔ (m.isShorthand ≠ m'.isShorthand → d.StandsForUntyped m) := by
  have htype (name : String) : d'.nameType name = d.nameType name := by
    rw [← d'.nameType_plain, ← hd, nameType_plain]
  have hname : m'.name? = m.name? := by rw [← m'.name?_spelledOut, ← hm, Member.name?_spelledOut]
  cases hs : m.isShorthand with
  | true =>
    obtain ⟨name, hsome, hany, hdata⟩ := dataType_of_isShorthand hs
    cases hs' : m'.isShorthand with
    | true =>
      obtain ⟨name', hsome', -, hdata'⟩ := dataType_of_isShorthand hs'
      obtain rfl : name = name' := Option.some.inj (hsome.symm.trans (hname.symm.trans hsome'))
      simp [hdata, hdata', htype]
    | false => simp [hdata, dataType_of_not_isShorthand hs', ← hm, hany, standsForUntyped_iff hsome]
  | false =>
    cases hs' : m'.isShorthand with
    | true =>
      obtain ⟨name, hsome, hany, hdata⟩ := dataType_of_isShorthand hs'
      simp [dataType_of_not_isShorthand hs, hm, hany, hdata, htype, standsForUntyped_iff (hname.symm.trans hsome),
        eq_comm]
    | false => simp [dataType_of_not_isShorthand hs, dataType_of_not_isShorthand hs', hm]

end Definition

namespace Component

def dataSources (c : Component) : Except ExtractError (List (Definition × Member)) :=
  c.gathered Definition.dataSources

/-- Where a data member is shorthand in one component and written out in the other, its name stands for no value of a
known type. -/
def RewritesUntyped (c c' : Component) : Prop :=
  ∀ sources sources', c.dataSources = .ok sources → c'.dataSources = .ok sources' →
    ∀ p p', (p, p') ∈ sources.zip sources' → p.2.isShorthand ≠ p'.2.isShorthand → p.1.StandsForUntyped p.2

theorem map_inferredType_data (c : Component) : (c.defined Definition.data).map (List.map (·.inferredType)) =
    c.dataSources.map (List.map fun p => p.1.dataType p.2) := by
  have hid : c.definitions = c.definitions.map (List.map id) := by
    cases c.definitions with
    | error e => rfl
    | ok definitions => exact congrArg Except.ok (List.map_id definitions).symm
  exact map_gathered_congr hid fun d => d.map_inferredType_data

theorem SpelledLike.map_inferredType_data_eq_iff {c c' : Component} (h : c.SpelledLike c') :
    (c.defined Definition.data).map (List.map (·.inferredType)) =
      (c'.defined Definition.data).map (List.map (·.inferredType)) ↔ c.RewritesUntyped c' := by
  have hplain (d : Definition) : d.plain.dataSources.map (List.map id) =
      d.dataSources.map (List.map fun p => (p.1.plain, p.2.respell spelledOut)) := by
    rw [d.dataSources_plain]
    cases d.dataSources with
    | error e => rfl
    | ok sources => exact congrArg Except.ok (List.map_id _)
  rw [map_inferredType_data, map_inferredType_data]
  refine map_eq_map_iff_of_zip (h.map_gathered_eq hplain) fun p p' hp => ?_
  obtain ⟨hd, hm⟩ := Prod.mk.inj hp
  exact Definition.dataType_eq_iff hd hm

end Component

/-- An occurrence without its places, and its type. -/
def Occurrence.told (o : Occurrence) : Occurrence × TypeDescriptor :=
  (o.plain, o.inferredType)

theorem map_told (found : Except ExtractError (List Occurrence)) : found.map (List.map (·.told)) =
    (found.map (List.map (·.plain))).map (List.map fun o => (o, o.inferredType)) := by
  cases found with
  | error e => rfl
  | ok found =>
    refine congrArg Except.ok ?_
    rw [List.map_map]
    refine List.map_congr_left fun o _ => ?_
    rw [Occurrence.told, Function.comp_apply, Occurrence.inferredType_plain]

/-- Where shorthand members are written out, or the other way round, the computed values and methods stay as they
were, as do the data apart from their values. The types of the data stay just if the names that are spelled in
another way stand for no value of a known type. -/
theorem Dialect.occurrences_of_spelledLike {c c' : Component} (h : c.SpelledLike c') :
    (Dialect.v2.occurrences c .computed).map (List.map (·.told)) =
      (Dialect.v2.occurrences c' .computed).map (List.map (·.told)) ∧
    (Dialect.v2.occurrences c .method).map (List.map (·.told)) =
      (Dialect.v2.occurrences c' .method).map (List.map (·.told)) ∧
    (Dialect.v2.occurrences c .data).map (List.map (·.plain.withoutInit)) =
      (Dialect.v2.occurrences c' .data).map (List.map (·.plain.withoutInit)) ∧
    ((Dialect.v2.occurrences c .data).map (List.map (·.inferredType)) =
      (Dialect.v2.occurrences c' .data).map (List.map (·.inferredType)) ↔ c.RewritesUntyped c') := by
  have hcomputed : (c.defined Definition.computed).map (List.map (·.plain)) =
      (c'.defined Definition.computed).map (List.map (·.plain)) := h.map_gathered_eq Definition.computed_plain
  have hmethods : (c.defined Definition.methods).map (List.map (·.plain)) =
      (c'.defined Definition.methods).map (List.map (·.plain)) := h.map_gathered_eq Definition.methods_plain
  refine ⟨?_, ?_, h.map_gathered_eq Definition.data_plain, h.map_inferredType_data_eq_iff⟩
  · rw [map_told, map_told]
    exact congrArg (Except.map (List.map fun o => (o, o.inferredType))) hcomputed
  · rw [map_told, map_told]
    exact congrArg (Except.map (List.map fun o => (o, o.inferredType))) hmethods

/-- A function `f`, and a definition object with one member both in its data and in its methods. -/
def functionAndMember (m : Member) : Component where
  name := none
  source := []
  markup := []
  scripts := [{
    isModule := false
    isTypeScript := false
    offset := 8
    items := [⟨0, .statement (.declaration (.function 0 ⟨"f", ⟨9, 10⟩⟩ (.mk [] (.block []) [])))⟩,
      ⟨14, .exportDefault (.object 29
        [.keyValue ⟨30, 37⟩ (.name ⟨"data", ⟨30, 34⟩⟩) (.object 35 [m]),
          .keyValue ⟨38, 49⟩ (.name ⟨"methods", ⟨38, 45⟩⟩) (.object 46 [m])])⟩]
    comments := [] }]
  markupComments := []

/-- A function as a member, under its own name: its two occurrences among the methods are the same either way, and
its type among the data is not known either way. -/
theorem Dialect.occurrences_of_spelledLike_function :
    let c := functionAndMember (.shorthand ⟨"f", ⟨47, 48⟩⟩)
    let c' := functionAndMember (.keyValue ⟨47, 50⟩ (.name ⟨"f", ⟨47, 48⟩⟩) (.ident ⟨"f", ⟨49, 50⟩⟩))
    c.SpelledLike c' ∧ (Dialect.v2.occurrences c .method).map List.length = .ok 2 ∧
      (Dialect.v2.occurrences c .method).map (List.map (·.told)) =
        (Dialect.v2.occurrences c' .method).map (List.map (·.told)) ∧ c.RewritesUntyped c' := by
  intro c c'
  have h : c.SpelledLike c' := rfl
  obtain ⟨-, hmethods, -, htypes⟩ := Dialect.occurrences_of_spelledLike h
  exact ⟨h, rfl, hmethods, htypes.mp rfl⟩

/-- A variable that holds a number, and a definition object that gives it back in its data. -/
def numberAndMember (m : String) : List Char :=
  ("<script>let x=1;export default\x7bdata()\x7breturn\x7b" ++ m ++ "\x7d\x7d\x7d</script>").toList

/-- The type of a data member is lost where its name is written out. -/
theorem Dialect.data_type_lost_by_writing_out : ∃ c c',
    Component.parse (numberAndMember "x") none = .ok c ∧ Component.parse (numberAndMember "x:x") none = .ok c' ∧
    (Dialect.v2.occurrences c .data).map (List.map fun o => (o.name, o.inferredType.text)) = .ok [("x", "number")] ∧
    (Dialect.v2.occurrences c' .data).map (List.map fun o => (o.name, o.inferredType.text)) = .ok [("x", "any")] := by
  have hread : (Component.parse (numberAndMember "x") none).toOption.map (fun c =>
      ((Dialect.v2.occurrences c .data).map (List.map fun o => (o.name, o.inferredType.text))).toOption) =
        some (some [("x", "number")]) := by
    decide +kernel
  have hread' : (Component.parse (numberAndMember "x:x") none).toOption.map (fun c =>
      ((Dialect.v2.occurrences c .data).map (List.map fun o => (o.name, o.inferredType.text))).toOption) =
        some (some [("x", "any")]) := by
    decide +kernel
  obtain ⟨c, hc, hdata⟩ := Option.map_eq_some_iff.mp hread
  obtain ⟨c', hc', hdata'⟩ := Option.map_eq_some_iff.mp hread'
  exact ⟨c, c', toOption_eq_some_iff.mp hc, toOption_eq_some_iff.mp hc', toOption_eq_some_iff.mp hdata,
    toOption_eq_some_iff.mp hdata'⟩

end ComponentDoc
