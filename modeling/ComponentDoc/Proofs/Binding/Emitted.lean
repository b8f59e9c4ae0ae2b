import ComponentDoc.Binding.Events
import ComponentDoc.Proofs.Script.Cascade
import ComponentDoc.Proofs.Script.Sites

/-!
The events that a script emits. There is one for each call of an emitter whose first argument names it, wherever
the call stands, and they are listed in the order of the calls. A comment on an event may stand before the token
that names it, before the call, and before the innermost expression statement around the call.
-/
namespace ComponentDoc

open Text (Span StringValue)
open Script

/-- The callee of a call that emits an event. -/
inductive Emitter.Matches : Emitter → Expr → Prop
  | dispatcher {names : List String} {callee : Expr} {id : Ident} (h : Wraps (.ident id) callee)
      (hname : id.name ∈ names) : Emitter.Matches (.dispatchers names) callee
  | thisFire {callee : Expr} {start : Nat} (h : Wraps (.member (.this start) "fire") callee) :
      Emitter.Matches .thisFire callee

theorem Emitter.emits_iff {emitter : Emitter} {callee : Expr} : emitter.emits callee ↔ emitter.Matches callee := by
  constructor
  · intro h
    unfold emits at h
    split at h
    next names id heq => exact .dispatcher (Expr.wraps_of_unwrap_eq heq) (by simpa using h)
    next start property heq =>
      obtain rfl : property = "fire" := by simpa using h
      exact .thisFire (Expr.wraps_of_unwrap_eq heq)
    next => cases h
  · rintro (⟨h, hname⟩ | h)
    · simp [emits, h.eq_of_unwrap_eq rfl, hname]
    · simp [emits, h.eq_of_unwrap_eq rfl]

/-- The declarator binds a name to a string. -/
inductive Script.Declarator.HoldsText : Declarator → String → String → Prop
  | mk {span : Span} {id : Ident} {type : List Part} {init : Expr} {value : String} (h : IsText init value) :
      HoldsText (.mk span (.ident id type) (some init)) id.name value

namespace ScriptBlock

theorem constant?_eq_some_iff {d : Declarator} {name value : String} :
    constant? d = some (name, value) ↔ d.HoldsText name value := by
  constructor
  · intro h
    unfold constant? at h
    split at h
    next span id type init =>
      obtain ⟨text, htext, heq⟩ := Option.map_eq_some_iff.mp h
      cases heq
      exact .mk (Expr.stringLiteral?_eq_some_iff.mp htext)
    next => cases h
  · rintro ⟨h⟩
    rw [constant?, Expr.stringLiteral?_eq_some_iff.mpr h]
    rfl

/-- The declarators of the constants at the top level. -/
def constantDeclarators (script : ScriptBlock) : List Declarator :=
  (script.topLevel.map fun decl => match decl with
    | .vars _ true declarators => declarators
    | _ => []).flatten

theorem constants_eq (script : ScriptBlock) : script.constants = script.constantDeclarators.filterMap constant? := by
  rw [constants, constantDeclarators, List.filterMap_flatten, List.map_map]
  refine congrArg (fun f => (List.map f script.topLevel).flatten) (funext fun decl => ?_)
  cases decl with
  | vars start constant declarators => cases constant <;> rfl
  | _ => rfl

/-- A constant of the top level that holds a string, the last of its name if there are several. -/
def HoldsText (script : ScriptBlock) (name value : String) : Prop :=
  ∃ before d after, script.constantDeclarators = before ++ d :: after ∧ d.HoldsText name value ∧
    ∀ d' ∈ after, ∀ value', ¬ d'.HoldsText name value'

theorem constantValue?_eq_some_iff {script : ScriptBlock} {name value : String} :
    constantValue? script.constants name = some value ↔ script.HoldsText name value := by
  rw [constantValue?, Option.map_eq_some_iff]
  constructor
  · rintro ⟨⟨name', value'⟩, hfind, rfl⟩
    obtain ⟨before, after, hsplit, hname, hafter⟩ := find?_reverse_eq_some_iff.mp hfind
    obtain rfl : name' = name := by simpa using hname
    rw [constants_eq, List.filterMap_eq_append_iff] at hsplit
    obtain ⟨front, back, hds, -, hback⟩ := hsplit
    obtain ⟨skipped, d, rest, rfl, -, hd, rfl⟩ := List.filterMap_eq_cons_iff.mp hback
    refine ⟨front ++ skipped, d, rest, by simp [hds], constant?_eq_some_iff.mp hd, ?_⟩
    intro d' hd' value' hholds
    refine hafter (name', value') (List.mem_filterMap.mpr ⟨d', hd', ?_⟩) (by simp)
    exact constant?_eq_some_iff.mpr hholds
  · rintro ⟨before, d, after, hds, hd, hafter⟩
    refine ⟨(name, value), find?_reverse_eq_some_iff.mpr ⟨before.filterMap constant?,
      after.filterMap constant?, ?_, by simp, ?_⟩, rfl⟩
    · rw [constants_eq, hds, List.filterMap_append, List.filterMap_cons, constant?_eq_some_iff.mpr hd]
    · rintro ⟨name', value'⟩ hm hname
      obtain rfl : name' = name := by simpa using hname
      obtain ⟨d', hd', hc⟩ := List.mem_filterMap.mp hm
      exact hafter d' hd' value' (constant?_eq_some_iff.mp hc)

/-- An argument that names an event, with the place of the token that does: a string literal, quotes excluded, or
the name of a constant. -/
inductive NamesEvent (script : ScriptBlock) (argument : Expr) : String → Span → Prop
  | literal {lit : StringLit} {name : String} (h : Wraps (.string lit) argument) (hvalue : lit.value = .text name) :
      NamesEvent script argument name ⟨(script.range lit.span).start + 1, (script.range lit.span).stop - 1⟩
  | constant {id : Ident} {name : String} (h : Wraps (.ident id) argument) (hname : script.HoldsText id.name name) :
      NamesEvent script argument name (script.range id.span)

theorem eventName?_eq_some_iff {script : ScriptBlock} {argument : Expr} {name : String} {token : Span} :
    script.eventName? script.constants argument = some (name, token) ↔ script.NamesEvent argument name token := by
  constructor
  · intro h
    unfold eventName? at h
    split at h
    next lit heq =>
      obtain ⟨text, htext, hpair⟩ := Option.map_eq_some_iff.mp h
      cases hpair
      exact .literal (Expr.wraps_of_unwrap_eq heq) (StringValue.text?_eq_some_iff.mp htext)
    next id heq =>
      obtain ⟨text, htext, hpair⟩ := Option.map_eq_some_iff.mp h
      cases hpair
      exact .constant (Expr.wraps_of_unwrap_eq heq) (constantValue?_eq_some_iff.mp htext)
    next => cases h
  · rintro (⟨h, hvalue⟩ | ⟨h, hname⟩)
    · rw [eventName?, h.eq_of_unwrap_eq rfl]
      simp [hvalue, StringValue.text?]
    · rw [eventName?, h.eq_of_unwrap_eq rfl]
      simp [constantValue?_eq_some_iff.mpr hname]

/-- The code of a script, item by item. -/
def code (script : ScriptBlock) : List Node :=
  (script.items.map Item.parts).flatten.map .part

/-- An event with the places before which a comment on it may stand, each once: that of its name, that of the call,
and that of the statement. -/
def eventAt (script : ScriptBlock) (name : String) (token : Span) (call : Expr) (around : List Node) : Occurrence where
  id := .named name
  name := name
  kind := .event
  visibility := .pub
  ident := token
  anchors := (token.start :: script.place call.start ::
    ((statementAround? around).map script.place).toList).eraseDups

/-- The event that is emitted at a site: a call stands there that is no link of a chain, its callee emits events and
its first argument names one. -/
inductive EmitsAt (script : ScriptBlock) (emitter : Emitter) (site : List Nat) : Occurrence → Prop
  | call {callee argument : Expr} {others : List Expr} {types : List Part} {around : List Node} {name : String}
      {token : Span}
      (hsite : chainIn? [] script.code site = some (.expr (.call callee (argument :: others) types) :: around))
      (hlink : isInChain around = false) (hcallee : emitter.Matches callee)
      (hname : script.NamesEvent argument name token) :
      EmitsAt script emitter site (script.eventAt name token (.call callee (argument :: others) types) around)

theorem addAnchors_eraseDups (anchors rest : List Nat) :
    Occurrence.addAnchors anchors.eraseDups rest = (anchors ++ rest).eraseDups := by
  induction rest generalizing anchors with
  | nil => simp [Occurrence.addAnchors]
  | cons a rest ih =>
    have hstep : (if anchors.eraseDups.contains a then anchors.eraseDups else anchors.eraseDups ++ [a]) =
        (anchors ++ [a]).eraseDups := by
      simp [eraseDups_concat]
    rw [Occurrence.addAnchors, hstep, ih, List.append_assoc]
    rfl

theorem ofName_eq_eventAt (script : ScriptBlock) (name : String) (token : Span) (call : Expr) (around : List Node) :
    Occurrence.ofName (.named name) name .event .pub token
      (script.place call.start :: ((statementAround? around).map script.place).toList) =
    script.eventAt name token call around := by
  have hanchors := addAnchors_eraseDups [token.start]
    (script.place call.start :: ((statementAround? around).map script.place).toList)
  have hsingle : [token.start].eraseDups = [token.start] := by simp [List.eraseDups_cons]
  rw [hsingle] at hanchors
  rw [Occurrence.ofName, eventAt, hanchors]
  rfl

theorem event?_call_eq_some_iff {script : ScriptBlock} {emitter : Emitter} {around : List Node} {callee : Expr}
    {arguments : List Expr} {o : Occurrence} (types : List Part) :
    script.event? script.constants emitter (.call (statementAround? around) callee arguments) = some o ↔
      ∃ argument others name token, arguments = argument :: others ∧ emitter.Matches callee ∧
        script.NamesEvent argument name token ∧
          o = script.eventAt name token (.call callee arguments types) around := by
  have hstart : callee.start = (Expr.call callee arguments types).start := by rw [Expr.start]
  unfold event?
  rw [← Emitter.emits_iff]
  cases arguments with
  | nil => simp
  | cons argument others =>
    by_cases hemits : emitter.emits callee
    · simp only [if_pos hemits, Option.map_eq_some_iff, Prod.exists, hstart, ofName_eq_eventAt, eventName?_eq_some_iff]
      constructor
      · rintro ⟨name, token, hname, rfl⟩
        exact ⟨argument, others, name, token, rfl, hemits, hname, rfl⟩
      · rintro ⟨_, _, name, token, heq, _, hname, rfl⟩
        cases heq
        exact ⟨name, token, hname, rfl⟩
    · simp [hemits]

/-- What is met at a site is an event just when one is emitted there. -/
theorem exists_event?_iff_emitsAt {script : ScriptBlock} {emitter : Emitter} {site : List Nat} {o : Occurrence} :
    (∃ visit, (chainIn? [] script.code site).bind visitAt? = some visit ∧
      script.event? script.constants emitter visit = some o) ↔ script.EmitsAt emitter site o := by
  constructor
  · rintro ⟨visit, hvisit, hevent⟩
    obtain ⟨chain, hchain, hmet⟩ := Option.bind_eq_some_iff.mp hvisit
    unfold visitAt? at hmet
    split at hmet
    next id around =>
      cases hmet
      cases hevent
    next callee arguments types around =>
      split_ifs at hmet with hlink
      cases hmet
      obtain ⟨argument, others, name, token, rfl, hcallee, hname, rfl⟩ :=
        (event?_call_eq_some_iff types).mp hevent
      exact .call hchain (by simpa using hlink) hcallee hname
    next => cases hmet
  · rintro ⟨hsite, hlink, hcallee, hname⟩
    rename_i callee argument others types around name token
    refine ⟨.call (statementAround? around) callee (argument :: others), ?_, ?_⟩
    · rw [hsite, Option.bind_some, visitAt?, hlink]
      rfl
    · exact (event?_call_eq_some_iff types).mpr ⟨argument, others, name, token, rfl, hcallee, hname, rfl⟩

theorem flatten_visits_eq (script : ScriptBlock) :
    (script.items.map Item.visits).flatten = script.code.flatMap (·.visits none) := by
  rw [code, List.flatMap_map, ← List.flatMap_def, ← List.flatMap_def, List.flatMap_assoc]
  refine congrArg (List.flatMap · script.items) (funext fun item => ?_)
  exact partsVisits_eq item.parts none

/-- The events of a script are those emitted at its sites, one for each site and in the order of sites. -/
theorem events_listed_by_site (script : ScriptBlock) (emitter : Emitter) :
    ∃ sites : List (List Nat), sites.Pairwise (· < ·) ∧
      (∀ site, site ∈ sites ↔ ∃ o, script.EmitsAt emitter site o) ∧
      List.Forall₂ (script.EmitsAt emitter) sites (script.events emitter) := by
  obtain ⟨entries, hlists, hvisits⟩ := exists_listsSites script.code
  let event (p : List Nat × Visit) : Option (List Nat × Occurrence) :=
    (script.event? script.constants emitter p.2).map (p.1, ·)
  have hevents : script.events emitter = (entries.filterMap event).map (·.2) := by
    rw [events, flatten_visits_eq, ← hvisits, List.filterMap_map, List.map_filterMap]
    refine congrArg (List.filterMap · entries) (funext fun p => ?_)
    rw [Option.map_map]
    exact (Option.map_id_apply).symm
  have hmem (site : List Nat) (o : Occurrence) :
      (site, o) ∈ entries.filterMap event ↔ script.EmitsAt emitter site o := by
    simp only [← exists_event?_iff_emitsAt, ← hlists.mem_iff, List.mem_filterMap, event, Option.map_eq_some_iff,
      Prod.exists, Prod.mk.injEq]
    constructor
    · rintro ⟨_, visit, hm, _, hevent, rfl, rfl⟩
      exact ⟨visit, hm, hevent⟩
    · rintro ⟨visit, hm, hevent⟩
      exact ⟨site, visit, hm, o, hevent, rfl, rfl⟩
  refine ⟨(entries.filterMap event).map (·.1), ?_, fun site => ?_, ?_⟩
  · refine List.pairwise_map.mpr (hlists.ordered.filterMap event fun p q hlt p' hp q' hq => ?_)
    obtain ⟨_, _, rfl⟩ := Option.map_eq_some_iff.mp hp
    obtain ⟨_, _, rfl⟩ := Option.map_eq_some_iff.mp hq
    exact hlt
  · simp only [List.mem_map, Prod.exists, exists_and_right, exists_eq_right, hmem]
  · rw [hevents, List.forall₂_map_left_iff, List.forall₂_map_right_iff, List.forall₂_same]
    exact fun p hp => (hmem p.1 p.2).mp hp

/-- A call of an emitter stands at a site, in a chain or not, and its first argument is a string literal. -/
def CallsWithLiteral (script : ScriptBlock) (emitter : Emitter) (site : List Nat) : Prop :=
  ∃ callee lit others types around, emitter.Matches callee ∧
    chainIn? [] script.code site = some (.expr (.call callee (.string lit :: others) types) :: around)

def callsWithLiteral (script : ScriptBlock) (emitter : Emitter) (site : List Nat) : Bool :=
  match chainIn? [] script.code site with
  | some (.expr (.call callee (.string _ :: _) _) :: _) => emitter.emits callee
  | _ => false

theorem CallsWithLiteral.of_test {script : ScriptBlock} {emitter : Emitter} {site : List Nat}
    (h : script.callsWithLiteral emitter site = true) : script.CallsWithLiteral emitter site := by
  unfold callsWithLiteral at h
  split at h
  next callee lit others types around heq => exact ⟨callee, lit, others, types, around, Emitter.emits_iff.mp h, heq⟩
  next => cases h

/-- Two calls of a dispatcher: the first names its event by half of a surrogate pair, the second is optional. -/
def silentText : List Char :=
  "const d=createEventDispatcher();d('\\uD800');d?.('a')".toList

/-- No event is emitted where the name is no text, nor where the call is a link of a chain. -/
theorem no_event_for_broken_name_or_optional_call : ∃ script, ScriptBlock.read silentText 0 false false = .ok script ∧
    script.CallsWithLiteral (.dispatchers script.dispatchers) [1, 0, 0] ∧
    script.CallsWithLiteral (.dispatchers script.dispatchers) [2, 0, 0, 0] ∧
    script.events (.dispatchers script.dispatchers) = [] := by
  have hread : (ScriptBlock.read silentText 0 false false).toOption.map (fun script =>
      (script.callsWithLiteral (.dispatchers script.dispatchers) [1, 0, 0],
        script.callsWithLiteral (.dispatchers script.dispatchers) [2, 0, 0, 0],
        (script.events (.dispatchers script.dispatchers)).isEmpty)) = some (true, true, true) := by
    decide +kernel
  obtain ⟨script, hscript, hfacts⟩ := Option.map_eq_some_iff.mp hread
  simp only [Prod.mk.injEq, List.isEmpty_iff] at hfacts
  exact ⟨script, toOption_eq_some_iff.mp hscript, .of_test hfacts.1, .of_test hfacts.2.1, hfacts.2.2⟩

end ScriptBlock

end ComponentDoc
