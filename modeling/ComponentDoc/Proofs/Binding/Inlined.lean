import ComponentDoc.Proofs.Binding.Emitted
import ComponentDoc.Proofs.Script.Respelled

/-!
Events that are named by a constant. Where the name of a constant is the first argument of a call that emits an
event, the value of the constant can be written in its place, and the events are called the same, if that value
is a string literal. A template without substitutions is read as the value of a constant, but names no event.
-/
namespace ComponentDoc

open Script

/-- What is met, whatever statement it is part of. -/
def Script.Visit.forget : Visit → Visit
  | .ident id => .ident id
  | .call _ callee arguments => .call none callee arguments

namespace Script.Node

/-- What a reader of a place meets, whatever statements it is part of. -/
def reads (n : Node) : List Visit :=
  (n.visits none).map Visit.forget

theorem map_forget_own (n : Node) (s : Option Nat) : (n.own s).map Visit.forget = n.own none := by
  cases n with
  | expr e => cases e <;> rfl
  | _ => rfl

theorem sizeOf_lt_of_mem_link {callee : Expr} {arguments : List Expr} {types : List Part} {c : Node}
    (hc : c ∈ (Node.expr (.call callee arguments types)).children) :
    sizeOf c < sizeOf (Node.expr (.optional (.call callee arguments types))) := by
  have hlink : sizeOf (Node.expr (.call callee arguments types)) <
      sizeOf (Node.expr (.optional (.call callee arguments types))) :=
    sizeOf_lt_of_mem_children List.mem_cons_self
  exact (sizeOf_lt_of_mem_children hc).trans hlink

/-- The statement around a place is told with what is met, and changes nothing else. -/
theorem map_forget_visits (n : Node) (s : Option Nat) : (n.visits s).map Visit.forget = n.reads := by
  rw [reads]
  by_cases hn : n.IsOptionalCall
  · obtain ⟨callee, arguments, types, rfl⟩ := hn
    rw [visits_optional_call, visits_optional_call, List.map_flatMap, List.map_flatMap]
    exact List.flatMap_congr fun c hc => c.map_forget_visits s
  · rw [visits_eq hn, visits_eq hn, List.map_append, List.map_append, map_forget_own, map_forget_own,
      List.map_flatMap, List.map_flatMap]
    refine congrArg (n.own none ++ ·) (List.flatMap_congr fun c hc => ?_)
    rw [c.map_forget_visits (n.statement s), c.map_forget_visits (n.statement none)]
termination_by sizeOf n
decreasing_by
  · rename_i hn
    rw [hn]
    exact sizeOf_lt_of_mem_link hc
  · exact sizeOf_lt_of_mem_children hc
  · exact sizeOf_lt_of_mem_children hc

theorem reads_eq {n : Node} (hn : ¬ n.IsOptionalCall) : n.reads = n.own none ++ n.children.flatMap reads := by
  rw [reads, visits_eq hn, List.map_append, map_forget_own, List.map_flatMap]
  exact congrArg (n.own none ++ ·) (List.flatMap_congr fun c _ => c.map_forget_visits (n.statement none))

theorem reads_optional_call (callee : Expr) (arguments : List Expr) (types : List Part) :
    (Node.expr (.optional (.call callee arguments types))).reads =
      (Node.expr (.call callee arguments types)).children.flatMap reads := by
  rw [reads, visits_optional_call, List.map_flatMap]
  rfl

end Script.Node

/-- The name that an argument gives to an event. -/
def nameOf? (constants : List (String × String)) (argument : Expr) : Option String :=
  match argument.unwrap with
  | .string lit => lit.value.text?
  | .ident id => constantValue? constants id.name
  | _ => none

/-- The name of the event that is emitted where something is met. -/
def Script.Visit.eventName? (constants : List (String × String)) (emitter : Emitter) : Visit → Option String
  | .ident _ => none
  | .call _ callee arguments =>
    if emitter.emits callee then arguments.head?.bind (nameOf? constants) else none

/-- The names of the events that are emitted in a place. -/
def Script.Node.eventNames (constants : List (String × String)) (emitter : Emitter) (n : Node) : List String :=
  n.reads.filterMap (Visit.eventName? constants emitter)

theorem ScriptBlock.map_fst_eventName? (script : ScriptBlock) (constants : List (String × String)) (argument : Expr) :
    (script.eventName? constants argument).map (·.1) = nameOf? constants argument := by
  rw [eventName?, nameOf?]
  cases argument.unwrap with
  | string lit => simp [Function.comp_def]
  | ident id => simp [Function.comp_def]
  | _ => rfl

theorem ScriptBlock.map_name_event? (script : ScriptBlock) (constants : List (String × String)) (emitter : Emitter)
    (visit : Visit) :
    (script.event? constants emitter visit).map (·.name) = visit.forget.eventName? constants emitter := by
  cases visit with
  | ident id => rfl
  | call statement callee arguments =>
    rw [Visit.forget, Visit.eventName?]
    by_cases hemits : emitter.emits callee
    · cases arguments with
      | nil => simp [event?]
      | cons argument others =>
        simp only [event?, if_pos hemits, List.head?_cons, Option.bind_some, Option.map_map,
          ← script.map_fst_eventName? constants]
        rfl
    · simp [event?, hemits]

theorem ScriptBlock.map_name_events (script : ScriptBlock) (emitter : Emitter) :
    (script.events emitter).map (·.name) = script.code.flatMap (·.eventNames script.constants emitter) := by
  rw [events, flatten_visits_eq, List.map_filterMap, List.filterMap_flatMap]
  refine List.flatMap_congr fun n _ => ?_
  rw [Node.eventNames, Node.reads, List.filterMap_map]
  exact congrArg (List.filterMap · _) (funext fun visit => script.map_name_event? _ emitter visit)

/-- The value of a constant is to be written in place of its name, where this is the first argument of a call that
emits an event and that place is chosen. -/
structure Inlining where
  emitter : Emitter
  name : String
  value : Expr
  chosen : Ident → Bool

namespace Inlining

def arguments (i : Inlining) (callee : Expr) : List Expr → List Expr
  | .ident id :: others =>
    if i.emitter.emits callee && id.name == i.name && i.chosen id then i.value :: others else .ident id :: others
  | arguments => arguments

/-- Writes the value where its name is chosen, and moves all else. -/
def respelling (i : Inlining) (place : Nat → Nat) (span : Text.Span → Text.Span) : Respelling where
  place := place
  span := span
  shorthand := .shorthand
  arguments := i.arguments

/-- A call is met whose first argument is replaced after it was moved. -/
def isChosen (i : Inlining) (r : Respelling) : Visit → Bool
  | .call _ callee (.ident id :: _) => i.emitter.emits callee && id.name == i.name && i.chosen (id.respell r)
  | _ => false

end Inlining

/-- Names before and after so many calls were given another argument. Such a call had the name `text`; it has the
names `direct` afterwards, and its new argument emits events of the names `inner`. -/
inductive Edited (text : String) (direct inner : List String) : Nat → List String → List String → Prop
  | same (names : List String) : Edited text direct inner 0 names names
  | append {k m : Nat} {a a' b b' : List String} (ha : Edited text direct inner k a a')
      (hb : Edited text direct inner m b b') : Edited text direct inner (k + m) (a ++ b) (a' ++ b')
  | call {k m : Nat} {a a' b b' : List String} (ha : Edited text direct inner k a a')
      (hb : Edited text direct inner m b b') :
      Edited text direct inner (1 + (k + m)) (text :: (a ++ b)) (direct ++ (a' ++ (inner ++ b')))

namespace Edited

variable {text : String} {direct inner : List String} {k : Nat} {names names' : List String}
  (h : Edited text direct inner k names names')
include h

theorem eq_of_zero (hk : k = 0) : names' = names := by
  induction h with
  | same names => rfl
  | append ha hb iha ihb => rw [iha (by omega), ihb (by omega)]
  | call ha hb iha ihb => omega

theorem eq_of_same (hdirect : direct = [text]) (hinner : inner = []) : names' = names := by
  induction h with
  | same names => rfl
  | append ha hb iha ihb => rw [iha, ihb]
  | call ha hb iha ihb => simp [hdirect, hinner, iha, ihb]

theorem length_eq : names'.length + k = names.length + k * (direct.length + inner.length) := by
  induction h with
  | same names => simp
  | @append k m a a' b b' ha hb iha ihb =>
    rw [List.length_append, List.length_append, Nat.add_mul]
    omega
  | @call k m a a' b b' ha hb iha ihb =>
    simp only [List.length_append, List.length_cons, Nat.add_mul, Nat.one_mul]
    omega

/-- Where each edited call has a name less or a name more, the names stay only if no call is edited. -/
theorem eq_iff_of_length_ne (hne : direct.length + inner.length ≠ 1) : names' = names ↔ k = 0 := by
  refine ⟨fun heq => ?_, h.eq_of_zero⟩
  have hlength := h.length_eq
  rw [heq, Nat.add_left_cancel_iff] at hlength
  by_contra hk
  exact hne (Nat.eq_of_mul_eq_mul_left (Nat.pos_of_ne_zero hk) (by omega))

end Edited

section

variable {constants : List (String × String)} {emitter : Emitter} {text : String} {i : Inlining} {r : Respelling}

theorem Emitter.emits_respell (emitter : Emitter) (r : Respelling) (callee : Expr) :
    emitter.emits (callee.respell r) = emitter.emits callee := by
  unfold emits
  rw [Expr.unwrap_respell]
  cases emitter with
  | thisFire =>
    cases callee.unwrap with
    | optional link => cases link <;> rfl
    | member base property =>
      cases base with
      | optional link => cases link <;> rfl
      | _ => rfl
    | _ => rfl
  | dispatchers names =>
    cases callee.unwrap with
    | optional link => cases link <;> rfl
    | _ => rfl

theorem nameOf?_respell (constants : List (String × String)) (r : Respelling) (argument : Expr) :
    nameOf? constants (argument.respell r) = nameOf? constants argument := by
  rw [nameOf?, nameOf?, Expr.unwrap_respell]
  cases argument.unwrap with
  | optional link => cases link <;> rfl
  | _ => rfl

/-- Names of what stands in several places, if those of each are known. -/
theorem Edited.flatMap {direct inner : List String} {count : Node → Nat} {before after : Node → List String}
    {cs : List Node} (h : ∀ c ∈ cs, Edited text direct inner (count c) (before c) (after c)) :
    Edited text direct inner (cs.map count).sum (cs.flatMap before) (cs.flatMap after) := by
  induction cs with
  | nil => exact .same []
  | cons c cs ih =>
    exact .append (h c List.mem_cons_self) (ih fun d hd => h d (List.mem_cons_of_mem _ hd))

/-- The names of the events that are emitted right at a place. -/
theorem Script.Node.eventNames_eq {n : Node} (hn : ¬ n.IsOptionalCall) : n.eventNames constants emitter =
    (n.own none).filterMap (Visit.eventName? constants emitter) ++
      n.children.flatMap (·.eventNames constants emitter) := by
  rw [eventNames, reads_eq hn, List.filterMap_append, List.filterMap_flatMap]
  rfl

/-- How many calls in a place are edited. -/
def Script.Node.chosenCalls (i : Inlining) (r : Respelling) (n : Node) : Nat :=
  n.reads.countP (i.isChosen r)

theorem Script.Node.chosenCalls_eq {n : Node} (hn : ¬ n.IsOptionalCall) : n.chosenCalls i r =
    (n.own none).countP (i.isChosen r) + (n.children.map (·.chosenCalls i r)).sum := by
  rw [chosenCalls, reads_eq hn, List.countP_append, List.countP_flatMap]
  rfl

theorem Script.Node.filterMap_own_of_not_hasArguments {n : Node} (hn : ¬ n.HasArguments) :
    (n.own none).filterMap (Visit.eventName? constants emitter) = [] := by
  cases n with
  | expr e =>
    cases e with
    | call callee arguments types => exact absurd (.inr ⟨callee, arguments, types, rfl⟩) hn
    | _ => rfl
  | _ => rfl

theorem Script.Node.countP_own_of_not_hasArguments {n : Node} (hn : ¬ n.HasArguments) :
    (n.own none).countP (i.isChosen r) = 0 := by
  cases n with
  | expr e =>
    cases e with
    | call callee arguments types => exact absurd (.inr ⟨callee, arguments, types, rfl⟩) hn
    | _ => rfl
  | _ => rfl

theorem Inlining.arguments_respell {callee : Expr} {arguments : List Expr}
    (h : i.isChosen r (.call none callee arguments) = false) :
    i.arguments (callee.respell r) (exprsRespell r arguments) = exprsRespell r arguments := by
  cases arguments with
  | nil => rfl
  | cons argument others =>
    cases argument with
    | ident id =>
      have hid : (i.emitter.emits (callee.respell r) && (id.respell r).name == i.name && i.chosen (id.respell r)) =
          false := by
        rw [Emitter.emits_respell]
        exact h
      rw [exprsRespell, Expr.respell, Inlining.arguments, hid]
      rfl
    | optional link => cases link <;> rfl
    | _ => rfl

theorem Inlining.exists_of_isChosen {callee : Expr} {arguments : List Expr}
    (h : i.isChosen r (.call none callee arguments) = true) :
    ∃ id others, arguments = .ident id :: others ∧ i.emitter.emits callee = true ∧ id.name = i.name := by
  unfold isChosen at h
  split at h
  next id others heq =>
    cases heq
    simp only [Bool.and_eq_true, beq_iff_eq] at h
    exact ⟨id, _, rfl, h.1.1, h.1.2⟩
  next => cases h

/-- The name at a call that keeps its arguments. -/
theorem eventName?_call_respell (r : Respelling) (callee : Expr) (arguments : List Expr) :
    Visit.eventName? constants emitter (.call none (callee.respell r) (exprsRespell r arguments)) =
      Visit.eventName? constants emitter (.call none callee arguments) := by
  rw [Visit.eventName?, Visit.eventName?, Emitter.emits_respell, exprsRespell_eq, List.head?_map]
  cases arguments with
  | nil => rfl
  | cons argument others =>
    simp only [List.head?_cons, Option.map_some, Option.bind_some, nameOf?_respell]

namespace Script.Node

/-- The places under a call: its callee, its arguments, its type arguments. -/
theorem children_call (callee : Expr) (arguments : List Expr) (types : List Part) :
    (Node.expr (.call callee arguments types)).children = .expr callee :: (arguments.map .expr ++ types.map .part) := by
  simp [children, Expr.children]

theorem not_isOptionalCall_call (callee : Expr) (arguments : List Expr) (types : List Part) :
    ¬ (Node.expr (.call callee arguments types)).IsOptionalCall := by
  simp [IsOptionalCall]

theorem children_call_respell (r : Respelling) (callee : Expr) (arguments : List Expr) (types : List Part) :
    (Node.expr (.call (callee.respell r) (exprsRespell r arguments) (partsRespell r types))).children =
      (Node.expr (.call callee arguments types)).children.map (·.respell r) := by
  simp [children_call, respell, exprsRespell_eq, partsRespell_eq, Function.comp_def]

theorem eventNames_call (callee : Expr) (arguments : List Expr) (types : List Part) :
    (Node.expr (.call callee arguments types)).eventNames constants emitter =
      (Visit.eventName? constants emitter (.call none callee arguments)).toList ++
        (Node.expr (.call callee arguments types)).children.flatMap (·.eventNames constants emitter) := by
  rw [eventNames_eq (not_isOptionalCall_call callee arguments types), own, List.filterMap_cons, List.filterMap_nil]
  cases Visit.eventName? constants emitter (.call none callee arguments) <;> rfl

theorem chosenCalls_call (callee : Expr) (arguments : List Expr) (types : List Part) :
    (Node.expr (.call callee arguments types)).chosenCalls i r =
      (i.isChosen r (.call none callee arguments)).toNat +
        ((Node.expr (.call callee arguments types)).children.map (·.chosenCalls i r)).sum := by
  rw [chosenCalls_eq (not_isOptionalCall_call callee arguments types), own, List.countP_singleton]
  cases i.isChosen r (.call none callee arguments) <;> rfl

theorem eventNames_optional_call (callee : Expr) (arguments : List Expr) (types : List Part) :
    (Node.expr (.optional (.call callee arguments types))).eventNames constants emitter =
      (Node.expr (.call callee arguments types)).children.flatMap (·.eventNames constants emitter) := by
  rw [eventNames, reads_optional_call, List.filterMap_flatMap]
  rfl

theorem chosenCalls_optional_call (callee : Expr) (arguments : List Expr) (types : List Part) :
    (Node.expr (.optional (.call callee arguments types))).chosenCalls i r =
      ((Node.expr (.call callee arguments types)).children.map (·.chosenCalls i r)).sum := by
  rw [chosenCalls, reads_optional_call, List.countP_flatMap]
  rfl

theorem eventNames_ident (id : Ident) : (Node.expr (.ident id)).eventNames constants emitter = [] := rfl

theorem chosenCalls_ident (id : Ident) : (Node.expr (.ident id)).chosenCalls i r = 0 := rfl

/-- The names in a place are edited once for each chosen call in it. -/
def IsEdited (constants : List (String × String)) (i : Inlining) (text : String) (r : Respelling) (n : Node) : Prop :=
  Edited text (nameOf? constants i.value).toList ((Node.expr i.value).eventNames constants i.emitter)
    (n.chosenCalls i r) (n.eventNames constants i.emitter) ((n.respell r).eventNames constants i.emitter)

theorem isEdited_of_isOptionalCall {callee : Expr} {arguments : List Expr} {types : List Part}
    (h : ∀ c ∈ (Node.expr (.call callee arguments types)).children, c.IsEdited constants i text r) :
    (Node.expr (.optional (.call callee arguments types))).IsEdited constants i text r := by
  rw [IsEdited, eventNames_optional_call, chosenCalls_optional_call, respell, Expr.respell,
    eventNames_optional_call, children_call_respell, List.flatMap_map]
  exact Edited.flatMap h

theorem isEdited_of_not_hasArguments (hshorthand : ∀ id, r.shorthand id = .shorthand id) {n : Node}
    (hn : ¬ n.HasArguments) (h : ∀ c ∈ n.children, c.IsEdited constants i text r) :
    n.IsEdited constants i text r := by
  rw [IsEdited, eventNames_eq fun h => hn (.inl h), chosenCalls_eq fun h => hn (.inl h),
    eventNames_eq fun h => not_hasArguments_respell hn (.inl h), filterMap_own_of_not_hasArguments hn,
    filterMap_own_of_not_hasArguments (not_hasArguments_respell hn), countP_own_of_not_hasArguments hn,
    children_respell hshorthand hn, List.nil_append, List.nil_append, Nat.zero_add, List.flatMap_map]
  exact Edited.flatMap h

/-- A call that keeps its arguments keeps its name. -/
theorem isEdited_of_not_isChosen (harguments : r.arguments = i.arguments) {callee : Expr} {arguments : List Expr}
    {types : List Part} (hchosen : i.isChosen r (.call none callee arguments) = false)
    (h : ∀ c ∈ (Node.expr (.call callee arguments types)).children, c.IsEdited constants i text r) :
    (Node.expr (.call callee arguments types)).IsEdited constants i text r := by
  rw [IsEdited, respell, Expr.respell, harguments, Inlining.arguments_respell hchosen, eventNames_call,
    eventNames_call, eventName?_call_respell, children_call_respell, chosenCalls_call, hchosen, List.flatMap_map]
  exact .append (.same _) (Edited.flatMap h)

/-- A call with a chosen argument is named by what stands there now. -/
theorem isEdited_of_isChosen (harguments : r.arguments = i.arguments)
    (htext : constantValue? constants i.name = some text) {callee : Expr} {arguments : List Expr} {types : List Part}
    (hchosen : i.isChosen r (.call none callee arguments) = true)
    (h : ∀ c ∈ (Node.expr (.call callee arguments types)).children, c.IsEdited constants i text r) :
    (Node.expr (.call callee arguments types)).IsEdited constants i text r := by
  obtain ⟨id, others, rfl, hemits, hname⟩ := Inlining.exists_of_isChosen hchosen
  have hreplaced : i.arguments (callee.respell r) (exprsRespell r (.ident id :: others)) =
      i.value :: exprsRespell r others := by
    have hcond : (i.emitter.emits (callee.respell r) && (id.respell r).name == i.name && i.chosen (id.respell r)) =
        true := by
      rw [Emitter.emits_respell]
      exact hchosen
    rw [exprsRespell, Expr.respell, Inlining.arguments, if_pos hcond]
  have hbefore : Visit.eventName? constants i.emitter (.call none callee (.ident id :: others)) = some text := by
    rw [Visit.eventName?, if_pos hemits, List.head?_cons, Option.bind_some]
    exact (congrArg (constantValue? constants) hname).trans htext
  have hafter : Visit.eventName? constants i.emitter
      (.call none (callee.respell r) (i.value :: exprsRespell r others)) = nameOf? constants i.value := by
    rw [Visit.eventName?, Emitter.emits_respell, if_pos hemits, List.head?_cons, Option.bind_some]
  have hothers : (exprsRespell r others).map Node.expr ++ (partsRespell r types).map Node.part =
      (others.map Node.expr ++ types.map Node.part).map (·.respell r) := by
    simp [exprsRespell_eq, partsRespell_eq, respell, Function.comp_def]
  rw [children_call] at h
  rw [IsEdited, respell, Expr.respell, harguments, hreplaced, eventNames_call, eventNames_call, chosenCalls_call,
    hbefore, hafter, hchosen, children_call, children_call]
  simp only [List.map_cons, List.cons_append, hothers, List.flatMap_cons, List.flatMap_map, List.sum_cons,
    eventNames_ident, chosenCalls_ident, Nat.zero_add, List.nil_append, Option.toList_some]
  refine .call (h _ List.mem_cons_self) (Edited.flatMap fun c hc => h c ?_)
  exact List.mem_cons_of_mem _ (List.mem_cons_of_mem _ hc)

/-- The names in code with the value of a constant in chosen places are edited once for each of these. -/
theorem isEdited (hshorthand : ∀ id, r.shorthand id = .shorthand id) (harguments : r.arguments = i.arguments)
    (htext : constantValue? constants i.name = some text) (n : Node) : n.IsEdited constants i text r := by
  by_cases hn : n.HasArguments
  · obtain ⟨callee, arguments, types, rfl⟩ | ⟨callee, arguments, types, rfl⟩ := hn
    · exact isEdited_of_isOptionalCall fun c hc => c.isEdited hshorthand harguments htext
    · cases hchosen : i.isChosen r (.call none callee arguments) with
      | true => exact isEdited_of_isChosen harguments htext hchosen fun c hc => c.isEdited hshorthand harguments htext
      | false => exact isEdited_of_not_isChosen harguments hchosen fun c hc => c.isEdited hshorthand harguments htext
  · exact isEdited_of_not_hasArguments hshorthand hn fun c hc => c.isEdited hshorthand harguments htext
termination_by sizeOf n
decreasing_by
  · rename_i hn
    rw [hn]
    exact sizeOf_lt_of_mem_link hc
  · rename_i hn _
    rw [hn]
    exact sizeOf_lt_of_mem_children hc
  · rename_i hn _
    rw [hn]
    exact sizeOf_lt_of_mem_children hc
  · exact sizeOf_lt_of_mem_children hc

end Script.Node

end

theorem Script.Item.parts_respell (r : Respelling) (item : Item) :
    (item.respell r).parts = item.parts.map (·.respell r) := by
  obtain ⟨start, kind⟩ := item
  cases kind with
  | compound parts => exact partsRespell_eq r parts
  | _ => rfl

namespace ScriptBlock

variable (script : ScriptBlock) (r : Respelling)

theorem code_respell : (script.respell r).code = script.code.map (·.respell r) := by
  simp only [code, respell, List.map_map, List.map_flatten, Function.comp_def, Item.parts_respell]
  rfl

theorem topLevel_respell : (script.respell r).topLevel = script.topLevel.map (·.respell r) := by
  rw [topLevel, topLevel, respell, List.filterMap_map, List.map_filterMap]
  refine congrArg (List.filterMap · script.items) (funext fun item => ?_)
  obtain ⟨start, kind⟩ := item
  cases kind with
  | statement t =>
    cases t with
    | «return» value => cases value <;> rfl
    | _ => rfl
  | _ => rfl

theorem constant?_respell (d : Declarator) : constant? (d.respell r) = constant? d := by
  obtain ⟨span, pattern, init⟩ := d
  cases init with
  | none => cases pattern <;> rfl
  | some value =>
    cases pattern with
    | ident id type => simp [Declarator.respell, Pattern.respell, constant?, Expr.stringLiteral?_respell, Ident.respell]
    | _ => rfl

/-- The constants of a script do not depend on its spelling. -/
theorem constants_respell : (script.respell r).constants = script.constants := by
  rw [constants, constants, topLevel_respell, List.map_map]
  refine congrArg List.flatten (List.map_congr_left fun decl _ => ?_)
  cases decl with
  | vars start constant declarators =>
    cases constant with
    | false => rfl
    | true =>
      simp only [Function.comp_apply, Decl.respell, declaratorsRespell_eq, List.filterMap_map]
      exact congrArg (List.filterMap · declarators) (funext (constant?_respell r))
  | _ => rfl

theorem factoryName?_respell (s : ImportSpecifier) : factoryName? (s.respell r) = factoryName? s := by
  obtain ⟨start, imported, binding⟩ := s
  cases imported with
  | member name typeOnly =>
    cases name with
    | none => rfl
    | some name => cases name <;> rfl
  | _ => rfl

theorem factories_respell : (script.respell r).factories = script.factories := by
  rw [factories, factories, respell, List.map_map]
  refine congrArg (fun names => dispatcherFactory :: List.flatten names) (List.map_congr_left fun item _ => ?_)
  obtain ⟨start, kind⟩ := item
  cases kind with
  | imports entry =>
    simp only [Function.comp_apply, Item.respell, ItemKind.respell, Import.respell, List.filterMap_map]
    exact congrArg (List.filterMap · entry.specifiers) (funext (factoryName?_respell r))
  | _ => rfl

theorem dispatcher?_respell (names : List String) (d : Declarator) :
    dispatcher? names (d.respell r) = dispatcher? names d := by
  obtain ⟨span, pattern, init⟩ := d
  cases init with
  | none => cases pattern <;> rfl
  | some value =>
    cases pattern with
    | ident id type =>
      rw [Declarator.respell, Pattern.respell, dispatcher?, dispatcher?, Expr.unwrap_respell]
      cases value.unwrap with
      | call callee arguments types =>
        simp only [Expr.respell, Expr.unwrap_respell]
        cases callee.unwrap with
        | optional link => cases link <;> rfl
        | _ => rfl
      | optional link => cases link <;> rfl
      | _ => rfl
    | _ => rfl

/-- Nor do its dispatchers. -/
theorem dispatchers_respell : (script.respell r).dispatchers = script.dispatchers := by
  rw [dispatchers, dispatchers, topLevel_respell, factories_respell, List.map_map]
  refine congrArg (fun names => (List.flatten names).eraseDups) (List.map_congr_left fun decl _ => ?_)
  cases decl with
  | vars start constant declarators =>
    simp only [Function.comp_apply, Decl.respell, declaratorsRespell_eq, List.filterMap_map]
    exact congrArg (List.filterMap · declarators) (funext (dispatcher?_respell r script.factories))
  | _ => rfl

end ScriptBlock

/-- All places in the code are forgotten. -/
def Script.Respelling.unplaced : Respelling where
  place := fun _ => 0
  span := fun _ => ⟨0, 0⟩
  shorthand := .shorthand
  arguments := fun _ arguments => arguments

/-- No place is chosen. -/
def Inlining.nowhere (i : Inlining) : Inlining :=
  { i with chosen := fun _ => false }

theorem Inlining.nowhere_arguments (i : Inlining) : i.nowhere.arguments = fun _ arguments => arguments := by
  funext callee arguments
  cases arguments with
  | nil => rfl
  | cons argument others =>
    cases argument with
    | ident id => simp [arguments, nowhere]
    | _ => rfl

theorem Inlining.isChosen_nowhere (i : Inlining) (r : Respelling) (visit : Visit) :
    i.nowhere.isChosen r visit = false := by
  unfold isChosen
  split
  next => exact Bool.and_false _
  next => rfl

/-- The expression is a string literal, perhaps in parentheses and assertions. -/
def Script.Expr.IsStringLiteral (value : Expr) : Prop :=
  ∃ lit, Wraps (.string lit) value

namespace ScriptBlock

/-- The scripts hold the same code, whatever stands between its tokens. -/
def SameCode (script script' : ScriptBlock) : Prop :=
  (script.respell .unplaced).items = (script'.respell .unplaced).items

/-- The script with the value of a constant in place of its name. -/
def inline (script : ScriptBlock) (i : Inlining) : ScriptBlock :=
  script.respell (i.respelling id id)

/-- A constant of the top level that holds a string, the last of its name if there are several, with the expression
it is bound to. -/
def IsConstant (script : ScriptBlock) (name : String) (value : Expr) : Prop :=
  ∃ before span id type after text,
    script.constantDeclarators = before ++ .mk span (.ident id type) (some value) :: after ∧ id.name = name ∧
      IsText value text ∧ ∀ d ∈ after, ∀ text', ¬ d.HoldsText name text'

/-- No call in the expression, or in a type that is written there, emits an event of the script. -/
def Silent (script : ScriptBlock) (emitter : Emitter) (value : Expr) : Prop :=
  ∀ visit ∈ value.visits none, script.event? script.constants emitter visit = none

/-- A call stands at a site that is no link of a chain and emits events, and the name of the constant is its first
argument and chosen. -/
def InlinesAt (script : ScriptBlock) (i : Inlining) (site : List Nat) : Prop :=
  ∃ callee id others types around,
    chainIn? [] script.code site = some (.expr (.call callee (.ident id :: others) types) :: around) ∧
      isInChain around = false ∧ i.emitter.Matches callee ∧ id.name = i.name ∧ i.chosen id = true

theorem edited_events {script : ScriptBlock} {i : Inlining} {r : Respelling} {text : String}
    (hshorthand : ∀ id, r.shorthand id = .shorthand id) (harguments : r.arguments = i.arguments)
    (htext : constantValue? script.constants i.name = some text) :
    Edited text (nameOf? script.constants i.value).toList ((Node.expr i.value).eventNames script.constants i.emitter)
      (script.code.map (·.chosenCalls i r)).sum ((script.events i.emitter).map (·.name))
      (((script.respell r).events i.emitter).map (·.name)) := by
  rw [map_name_events, map_name_events, code_respell, constants_respell, List.flatMap_map]
  exact Edited.flatMap fun n _ => n.isEdited hshorthand harguments htext

/-- The names of the events do not depend on where anything stands. -/
theorem map_name_events_unplaced {script : ScriptBlock} {i : Inlining} {text : String}
    (htext : constantValue? script.constants i.name = some text) :
    ((script.respell .unplaced).events i.emitter).map (·.name) = (script.events i.emitter).map (·.name) := by
  refine (edited_events (i := i.nowhere) (fun _ => rfl) i.nowhere_arguments.symm htext).eq_of_zero ?_
  refine List.sum_eq_zero fun k hk => ?_
  obtain ⟨n, -, rfl⟩ := List.mem_map.mp hk
  simp [Node.chosenCalls, i.isChosen_nowhere]

theorem SameCode.constants_eq {script script' : ScriptBlock} (h : script.SameCode script') :
    script.constants = script'.constants := by
  rw [← script.constants_respell .unplaced, ← script'.constants_respell .unplaced]
  simp only [constants, topLevel, show (script.respell .unplaced).items = _ from h]

theorem SameCode.dispatchers_eq {script script' : ScriptBlock} (h : script.SameCode script') :
    script.dispatchers = script'.dispatchers := by
  rw [← script.dispatchers_respell .unplaced, ← script'.dispatchers_respell .unplaced]
  simp only [dispatchers, factories, topLevel, show (script.respell .unplaced).items = _ from h]

theorem SameCode.map_name_events_eq {script script' : ScriptBlock} (h : script.SameCode script') {i : Inlining}
    {text : String} (htext : constantValue? script.constants i.name = some text) :
    (script.events i.emitter).map (·.name) = (script'.events i.emitter).map (·.name) := by
  have hcode : (script.respell .unplaced).code = (script'.respell .unplaced).code := by
    simp only [code, show (script.respell .unplaced).items = _ from h]
  have htext' : constantValue? script'.constants i.name = some text := h.constants_eq ▸ htext
  calc (script.events i.emitter).map (·.name)
      = ((script.respell .unplaced).events i.emitter).map (·.name) := (map_name_events_unplaced htext).symm
    _ = ((script'.respell .unplaced).events i.emitter).map (·.name) := by
        rw [map_name_events, map_name_events, hcode, constants_respell, constants_respell, h.constants_eq]
    _ = (script'.events i.emitter).map (·.name) := map_name_events_unplaced htext'

theorem IsConstant.exists_text {script : ScriptBlock} {name : String} {value : Expr}
    (h : script.IsConstant name value) :
    ∃ text, constantValue? script.constants name = some text ∧ IsText value text := by
  obtain ⟨before, span, id, type, after, text, hds, rfl, htext, hafter⟩ := h
  exact ⟨text, constantValue?_eq_some_iff.mpr ⟨before, _, after, hds, .mk htext, hafter⟩, htext⟩

/-- The value of a constant names an event itself just if it is a string literal. -/
theorem nameOf?_of_isText {constants : List (String × String)} {value : Expr} {text : String} (h : IsText value text) :
    (nameOf? constants value = some text ∧ value.IsStringLiteral) ∨
      (nameOf? constants value = none ∧ ¬ value.IsStringLiteral) := by
  cases h with
  | string h hvalue =>
    refine .inl ⟨?_, _, h⟩
    simp [nameOf?, h.eq_of_unwrap_eq rfl, hvalue, Text.StringValue.text?]
  | template h =>
    refine .inr ⟨by simp [nameOf?, h.eq_of_unwrap_eq rfl], ?_⟩
    rintro ⟨lit, hlit⟩
    cases (h.eq_of_unwrap_eq rfl).symm.trans (hlit.eq_of_unwrap_eq rfl)

theorem eventNames_eq_nil_iff {script : ScriptBlock} {emitter : Emitter} {value : Expr} :
    (Node.expr value).eventNames script.constants emitter = [] ↔ script.Silent emitter value := by
  rw [Node.eventNames, Node.reads, List.filterMap_map, List.filterMap_eq_nil_iff]
  refine forall₂_congr fun visit _ => ?_
  rw [Function.comp_apply, ← script.map_name_event?, Option.map_eq_none_iff]

theorem exists_isChosen_iff_inlinesAt {script : ScriptBlock} {i : Inlining} {site : List Nat} :
    (∃ visit, (chainIn? [] script.code site).bind visitAt? = some visit ∧
      i.isChosen (i.respelling id id) visit.forget = true) ↔ script.InlinesAt i site := by
  constructor
  · rintro ⟨visit, hvisit, hchosen⟩
    obtain ⟨chain, hchain, hmet⟩ := Option.bind_eq_some_iff.mp hvisit
    unfold visitAt? at hmet
    split at hmet
    next id around =>
      cases hmet
      cases hchosen
    next callee arguments types around =>
      split_ifs at hmet with hlink
      cases hmet
      obtain ⟨id, others, rfl, hemits, hname⟩ := Inlining.exists_of_isChosen hchosen
      simp only [Visit.forget, Inlining.isChosen, Bool.and_eq_true] at hchosen
      exact ⟨callee, id, others, types, around, hchain, by simpa using hlink, Emitter.emits_iff.mp hemits, hname,
        hchosen.2⟩
    next => cases hmet
  · rintro ⟨callee, name, others, types, around, hsite, hlink, hcallee, hname, hchosen⟩
    refine ⟨.call (statementAround? around) callee (.ident name :: others), ?_, ?_⟩
    · rw [hsite, Option.bind_some, visitAt?, hlink]
      rfl
    · have hid : name.respell (i.respelling id id) = name := rfl
      simp [Visit.forget, Inlining.isChosen, Emitter.emits_iff.mpr hcallee, hname, hid, hchosen]

/-- No call is counted as edited just if the value is inlined nowhere. -/
theorem sum_chosenCalls_eq_zero_iff {script : ScriptBlock} {i : Inlining} :
    (script.code.map (·.chosenCalls i (i.respelling id id))).sum = 0 ↔ ∀ site, ¬ script.InlinesAt i site := by
  obtain ⟨entries, hlists, hvisits⟩ := exists_listsSites script.code
  have hcount : (script.code.map (·.chosenCalls i (i.respelling id id))).sum =
      (script.code.flatMap (·.visits none)).countP (i.isChosen (i.respelling id id) ∘ Visit.forget) := by
    rw [List.countP_flatMap]
    refine congrArg List.sum (List.map_congr_left fun n _ => ?_)
    rw [Node.chosenCalls, Node.reads, List.countP_map, Function.comp_apply]
  rw [hcount, ← hvisits, List.countP_eq_zero]
  simp only [← exists_isChosen_iff_inlinesAt, ← hlists.mem_iff, List.mem_map, Prod.exists, exists_eq_right,
    forall_exists_index, Function.comp_apply, not_exists, not_and]
  exact forall_comm

/-- Where the value of a constant is a string literal, or holds no call that emits an event, the events keep their
names just if it is both or is nowhere written in place of its name. -/
theorem inlined_event_names_eq_iff {script script' : ScriptBlock} {i : Inlining}
    (hconstant : script.IsConstant i.name i.value) (hsame : script'.SameCode (script.inline i))
    (hvalue : i.value.IsStringLiteral ∨ script.Silent i.emitter i.value) :
    script'.dispatchers = script.dispatchers ∧
      ((script'.events i.emitter).map (·.name) = (script.events i.emitter).map (·.name) ↔
        (i.value.IsStringLiteral ∧ script.Silent i.emitter i.value) ∨ ∀ site, ¬ script.InlinesAt i site) := by
  obtain ⟨text, htext, hvalueText⟩ := hconstant.exists_text
  have hconstants : script'.constants = script.constants := hsame.constants_eq.trans (script.constants_respell _)
  refine ⟨hsame.dispatchers_eq.trans (script.dispatchers_respell _), ?_⟩
  have hedited := edited_events (r := i.respelling id id) (fun _ => rfl) rfl htext
  rw [hsame.map_name_events_eq (hconstants ▸ htext), ← sum_chosenCalls_eq_zero_iff, ← eventNames_eq_nil_iff, inline]
  rw [← eventNames_eq_nil_iff] at hvalue
  obtain ⟨hname, hliteral⟩ | ⟨hname, hliteral⟩ := nameOf?_of_isText hvalueText
  · rw [hname, Option.toList_some] at hedited
    by_cases hsilent : (Node.expr i.value).eventNames script.constants i.emitter = []
    · simp [hliteral, hsilent, hedited.eq_of_same rfl hsilent]
    · rw [hedited.eq_iff_of_length_ne (by simpa using hsilent)]
      simp [hsilent]
  · have hsilent := hvalue.resolve_left hliteral
    rw [hname, hsilent] at hedited
    rw [hedited.eq_iff_of_length_ne (by simp)]
    simp [hliteral]

/-- A constant `E` of a value, and a call of `d` with an argument. -/
def constantAndCall (value argument : Expr) : ScriptBlock where
  isModule := false
  isTypeScript := false
  offset := 0
  items := [⟨0, .statement (.declaration (.vars 0 true [.mk ⟨6, 11⟩ (.ident ⟨"E", ⟨6, 7⟩⟩ []) (some value)]))⟩,
    ⟨12, .statement (.expr 12 (.call (.ident ⟨"d", ⟨12, 13⟩⟩) [argument] []))⟩]
  comments := []

/-- `const E='x';d(E)` and `const E='x';d('x')` name their events alike. -/
theorem inlined_event_names_eq_iff_literal :
    let value := Expr.string ⟨.text "x", ⟨8, 11⟩⟩
    let script := constantAndCall value (.ident ⟨"E", ⟨14, 15⟩⟩)
    let script' := constantAndCall value (.string ⟨.text "x", ⟨14, 17⟩⟩)
    let i : Inlining := ⟨.dispatchers ["d"], "E", value, fun _ => true⟩
    script.InlinesAt i [1, 0, 0] ∧ script'.dispatchers = script.dispatchers ∧
      (script'.events i.emitter).map (·.name) = (script.events i.emitter).map (·.name) := by
  intro value script script' i
  have hliteral : value.IsStringLiteral := ⟨_, .bare⟩
  have hsilent : script.Silent i.emitter value := by
    intro visit hvisit
    cases hvisit
  have hconstant : script.IsConstant i.name i.value :=
    ⟨[], ⟨6, 11⟩, ⟨"E", ⟨6, 7⟩⟩, [], [], "x", rfl, rfl, .string .bare rfl, by simp⟩
  have hsame : script'.SameCode (script.inline i) := rfl
  obtain ⟨hdispatchers, hnames⟩ := inlined_event_names_eq_iff hconstant hsame (.inl hliteral)
  exact ⟨⟨_, _, _, _, _, rfl, rfl, .dispatcher .bare List.mem_cons_self, rfl, rfl⟩, hdispatchers,
    hnames.mpr (.inl ⟨hliteral, hsilent⟩)⟩

/-- A dispatcher is called with an argument, next to a constant whose value is a template. -/
def templateText (argument : String) : List Char :=
  ("const d=createEventDispatcher();const E=`x`;d(" ++ argument ++ ")").toList

/-- A template names an event as the value of a constant, and names none in place of the constant. -/
theorem template_inlined_names_no_event : ∃ script script',
    ScriptBlock.read (templateText "E") 0 false false = .ok script ∧
    ScriptBlock.read (templateText "`x`") 0 false false = .ok script' ∧
    script.constants = [("E", "x")] ∧ script'.constants = [("E", "x")] ∧
    (script.events (.dispatchers script.dispatchers)).map (·.name) = ["x"] ∧
    (script'.events (.dispatchers script'.dispatchers)).map (·.name) = [] := by
  have hread : (ScriptBlock.read (templateText "E") 0 false false).toOption.map (fun script =>
      (script.constants, (script.events (.dispatchers script.dispatchers)).map (·.name))) =
        some ([("E", "x")], ["x"]) := by
    decide +kernel
  have hread' : (ScriptBlock.read (templateText "`x`") 0 false false).toOption.map (fun script =>
      (script.constants, (script.events (.dispatchers script.dispatchers)).map (·.name))) =
        some ([("E", "x")], []) := by
    decide +kernel
  obtain ⟨script, hscript, hfacts⟩ := Option.map_eq_some_iff.mp hread
  obtain ⟨script', hscript', hfacts'⟩ := Option.map_eq_some_iff.mp hread'
  simp only [Prod.mk.injEq] at hfacts hfacts'
  exact ⟨script, script', toOption_eq_some_iff.mp hscript, toOption_eq_some_iff.mp hscript', hfacts.1, hfacts'.1,
    hfacts.2, hfacts'.2⟩

end ScriptBlock

end ComponentDoc
