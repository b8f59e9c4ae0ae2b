import ComponentDoc.Binding.Dialect
import ComponentDoc.Proofs.Shift.Definition

namespace ComponentDoc

open Text Script

namespace ScriptBlock

variable (script : ScriptBlock) (n : Nat)

theorem eventName?_shift (hpos : 0 < script.offset) (constants : List (String × String))
    (argument : Expr) : (script.shift n).eventName? constants argument =
      (script.eventName? constants argument).map fun p => (p.1, p.2.shift n) := by
  unfold eventName?
  simp only [range_shift]
  split
  · next lit _ =>
    -- The place of the closing quote is after the start of the script, so that taking one off is exact.
    have hstop : ((script.range lit.span).shift n).stop - 1 = n + ((script.range lit.span).stop - 1) := by
      simp only [range, Span.shift]
      omega
    rw [Option.map_map, hstop]
    rfl
  · rw [Option.map_map]
    rfl
  · rfl

theorem event?_shift (hpos : 0 < script.offset) (constants : List (String × String))
    (emitter : Emitter) (visit : Visit) : (script.shift n).event? constants emitter visit =
      (script.event? constants emitter visit).map (·.shift n) := by
  cases visit with
  | ident id => rfl
  | call statement callee arguments =>
    simp only [event?]
    split_ifs
    · cases arguments with
      | nil => rfl
      | cons argument arguments =>
        simp only [eventName?_shift script n hpos, Option.map_map]
        refine congrArg (Option.map · _) (funext fun p => ?_)
        rw [Function.comp_apply, Function.comp_apply, Occurrence.shift_ofName]
        cases statement <;> simp
    · rfl

theorem events_shift (hpos : 0 < script.offset) (emitter : Emitter) :
    (script.shift n).events emitter = (script.events emitter).map (·.shift n) := by
  unfold events
  rw [List.map_filterMap]
  exact congrArg (List.filterMap · _)
    (funext fun visit => script.event?_shift n hpos script.constants emitter visit)

end ScriptBlock

namespace Component

theorem markupOccurrence_shift (tag : Tag) (kind : EntityKind) (name : List Char) (n start : Nat) :
    markupOccurrence (tag.shift n) kind name (n + start) =
      (markupOccurrence tag kind name start).shift n := by
  simp [markupOccurrence, Occurrence.shift_ofName, Tag.shift, Span.shift, Nat.add_assoc]

theorem slot_shift (tag : Tag) (n : Nat) : slot (tag.shift n) = (slot tag).shift n := by
  have hvalue : ((tag.shift n).attributes.find? (·.name == "name".toList)).bind Attribute.value =
      ((tag.attributes.find? (·.name == "name".toList)).bind Attribute.value).map
        fun p => (p.1, n + p.2) := by
    simp only [Tag.shift, List.find?_map]
    change Option.bind (Option.map _ (tag.attributes.find? (·.name == "name".toList))) _ = _
    cases tag.attributes.find? (·.name == "name".toList) <;> rfl
  have hdefault : Occurrence.ofName (.named defaultSlot) defaultSlot .slot .pub
      ⟨(tag.shift n).start + 1, (tag.shift n).start + 1 + byteLength (tag.shift n).name⟩
      [(tag.shift n).start] =
      (Occurrence.ofName (.named defaultSlot) defaultSlot .slot .pub
        ⟨tag.start + 1, tag.start + 1 + byteLength tag.name⟩ [tag.start]).shift n := by
    simp [Occurrence.shift_ofName, Tag.shift, Span.shift, Nat.add_assoc]
  unfold slot
  rw [hvalue]
  cases (tag.attributes.find? (·.name == "name".toList)).bind Attribute.value with
  | none => exact hdefault
  | some p =>
    obtain ⟨name, start⟩ := p
    cases name with
    | nil => exact hdefault
    | cons c name => exact markupOccurrence_shift tag .slot (c :: name) n start

theorem forwarded?_shift (tag : Tag) (a : Attribute) (n : Nat) :
    forwarded? (tag.shift n) (a.shift n) = (forwarded? tag a).map (·.shift n) := by
  unfold forwarded?
  simp only [Attribute.shift]
  cases a.value with
  | some value => rfl
  | none =>
    cases after? "on:".toList a.name with
    | none => rfl
    | some directive =>
      simp only [Option.map_none, Nat.add_assoc, markupOccurrence_shift]
      split <;> rfl

theorem firedAt?_shift (cs : List Char) (n offset : Nat) : firedAt? cs (n + offset) =
    (firedAt? cs offset).map fun p => (p.1, n + p.2.1, n + p.2.2) := by
  unfold firedAt?
  cases after? "fire(".toList cs with
  | none => rfl
  | some rest =>
    simp only [Option.bind_eq_bind, Option.bind_some]
    split
    · split_ifs <;> simp [Nat.add_assoc]
    · rfl

theorem firedFrom_shift {n taken taken' : Nat} (htaken : ∀ k, n + k < taken' ↔ k < taken)
    (previous : Option Char) (cs : List Char) (offset : Nat) :
    firedFrom taken' previous cs (n + offset) =
      (firedFrom taken previous cs offset).map fun p => (p.1, n + p.2) := by
  induction cs generalizing taken taken' previous offset with
  | nil => rfl
  | cons c cs ih =>
    have hb : Nat.blt (n + offset) taken' = Nat.blt offset taken := by
      rw [Bool.eq_iff_iff, Nat.blt_eq, Nat.blt_eq, htaken]
    simp only [firedFrom, hb, firedAt?_shift, Nat.add_assoc]
    split_ifs
    · exact ih htaken _ _
    · cases firedAt? (c :: cs) offset with
      | none => exact ih htaken _ _
      | some p => exact congrArg ((p.1, n + p.2.1) :: ·) (ih (fun k => Nat.add_lt_add_iff_left) _ _)

theorem fired_shift (tag : Tag) (a : Attribute) (n : Nat) :
    fired (tag.shift n) (a.shift n) = (fired tag a).map (·.shift n) := by
  unfold fired
  simp only [Attribute.shift]
  cases a.value with
  | none => rfl
  | some p =>
    cases after? "on:".toList a.name with
    | none => rfl
    | some directive =>
      have hfired : firedFrom 0 none p.1 (n + p.2) =
          (firedFrom 0 none p.1 p.2).map fun q => (q.1, n + q.2) :=
        firedFrom_shift (fun k => by simp) none p.1 p.2
      simp only [Option.map_some, hfired, List.map_map]
      exact congrArg (List.map · _)
        (funext fun q : List Char × Nat => markupOccurrence_shift tag .event q.1 n q.2)

section

variable {lead : List Char} (hlead : ∀ c ∈ lead, isBlank c) (c : Component)
include hlead

theorem slots_behind : (c.behind lead).slots = c.slots.map (·.shift (byteLength lead)) := by
  unfold slots
  rw [tags_behind hlead, List.filter_map, List.map_map, List.map_map]
  exact congrArg (List.map · _) (funext fun tag => slot_shift tag _)

theorem forwardedEvents_behind :
    (c.behind lead).forwardedEvents = c.forwardedEvents.map (·.shift (byteLength lead)) := by
  unfold forwardedEvents
  rw [tags_behind hlead, List.map_map, List.map_flatten, List.map_map]
  refine congrArg (fun f => (List.map f c.tags).flatten) (funext fun tag => ?_)
  simp only [Function.comp_apply]
  rw [List.map_filterMap]
  exact (List.filterMap_map ..).trans
    (congrArg (List.filterMap · _) (funext fun a => forwarded?_shift tag a _))

theorem firedEvents_behind :
    (c.behind lead).firedEvents = c.firedEvents.map (·.shift (byteLength lead)) := by
  unfold firedEvents
  rw [tags_behind hlead, List.map_map, List.map_flatten, List.map_map]
  refine congrArg (fun f => (List.map f c.tags).flatten) (funext fun tag => ?_)
  simp only [Function.comp_apply]
  rw [List.map_flatten, List.map_map]
  exact congrArg List.flatten ((List.map_map ..).trans
    (congrArg (List.map · _) (funext fun a => fired_shift tag a _)))

end

end Component

theorem numbered_map {α β : Type} (f : α → β) (n : Nat) (xs : List α) :
    numbered n (xs.map f) = (numbered n xs).map fun p => (p.1, f p.2) := by
  induction xs generalizing n with
  | nil => rfl
  | cons x xs ih => simp [numbered, ih]

namespace Component

variable (lead : List Char) (c : Component)

theorem scopes_behind : (c.behind lead).scopes =
    c.scopes.map fun p => (p.1, p.2.shift (byteLength lead)) :=
  numbered_map ..

theorem definitions_behind : (c.behind lead).definitions =
    c.definitions.map (List.map (·.shift (byteLength lead))) := by
  have h : ((c.behind lead).scopes.mapM fun p : Nat × ScriptBlock => p.2.definition? p.1) =
      (c.scopes.mapM fun p : Nat × ScriptBlock => p.2.definition? p.1).map
        (List.map (Option.map (·.shift (byteLength lead)))) := by
    rw [scopes_behind]
    exact mapM_map_eq_map fun p _ => p.2.definition?_shift _ p.1
  unfold definitions
  rw [h]
  cases c.scopes.mapM fun p : Nat × ScriptBlock => p.2.definition? p.1 with
  | error e => rfl
  | ok found =>
    refine congrArg Except.ok ?_
    rw [List.filterMap_map, List.map_filterMap]
    rfl

theorem hasDefinition_behind : (c.behind lead).hasDefinition = c.hasDefinition := by
  unfold hasDefinition
  rw [scopes_behind, List.any_map]
  refine congrArg (List.any _) (funext fun p => ?_)
  simp only [Function.comp_apply, ScriptBlock.definition?_shift]
  cases p.2.definition? p.1 with
  | error e => rfl
  | ok found => cases found <;> rfl

theorem defined_behind {list : Definition → Except ExtractError (List Occurrence)}
    (hlist : ∀ d n, list (d.shift n) = (list d).map (List.map (·.shift n))) :
    (c.behind lead).defined list = (c.defined list).map (List.map (·.shift (byteLength lead))) := by
  unfold defined
  rw [definitions_behind]
  cases c.definitions with
  | error e => rfl
  | ok definitions =>
    have h : (definitions.map (·.shift (byteLength lead))).mapM list = _ :=
      mapM_map_eq_map fun d _ => hlist d (byteLength lead)
    change ((definitions.map (·.shift (byteLength lead))).mapM list >>= _) =
      (definitions.mapM list >>= _).map _
    rw [h]
    cases definitions.mapM list with
    | error e => rfl
    | ok found => exact congrArg Except.ok List.map_flatten.symm

theorem declared_behind (kind : EntityKind) : (c.behind lead).declared kind =
    (c.declared kind).map (List.map (·.shift (byteLength lead))) := by
  have h : ((c.behind lead).scopes.mapM fun p : Nat × ScriptBlock => (p.2.facts p.1).resolve p.1) =
      (c.scopes.mapM fun p : Nat × ScriptBlock => (p.2.facts p.1).resolve p.1).map
        (List.map (List.map (·.shift (byteLength lead)))) := by
    rw [scopes_behind]
    refine mapM_map_eq_map fun p _ => ?_
    rw [ScriptBlock.facts_shift, Facts.resolve_shift]
  unfold declared
  rw [h]
  cases c.scopes.mapM fun p : Nat × ScriptBlock => (p.2.facts p.1).resolve p.1 with
  | error e => rfl
  | ok found =>
    refine congrArg Except.ok ?_
    rw [← List.map_flatten, List.filter_map]
    rfl

end Component

/-- What a dialect lists for a component behind leading blanks. -/
theorem Dialect.occurrences_behind {lead : List Char} (hlead : ∀ c ∈ lead, isBlank c) {c : Component}
    (hpos : ∀ script ∈ c.scripts, 0 < script.offset) (dialect : Dialect) (kind : EntityKind) :
    dialect.occurrences (c.behind lead) kind =
      (dialect.occurrences c kind).map (List.map (·.shift (byteLength lead))) := by
  have hevents (emitter : ScriptBlock → Emitter)
      (he : ∀ script : ScriptBlock, emitter (script.shift (byteLength lead)) = emitter script) :
      ((c.behind lead).scripts.map fun s => s.events (emitter s)).flatten =
        ((c.scripts.map fun s => s.events (emitter s)).flatten).map (·.shift (byteLength lead)) := by
    rw [List.map_flatten, List.map_map]
    refine congrArg List.flatten ((List.map_map ..).trans (List.map_congr_left fun s hs => ?_))
    rw [Function.comp_apply, Function.comp_apply, he, s.events_shift _ (hpos s hs)]
  cases dialect with
  | v2 =>
    cases kind with
    | data => exact c.defined_behind lead Definition.data_shift
    | computed => exact c.defined_behind lead Definition.computed_shift
    | method => exact c.defined_behind lead Definition.methods_shift
    | event =>
      refine congrArg Except.ok ?_
      rw [List.map_append, hevents (fun _ => .thisFire) fun _ => rfl, Component.firedEvents_behind hlead]
    | slot => exact congrArg Except.ok (Component.slots_behind hlead c)
  | v3 =>
    cases kind with
    | data => exact c.declared_behind lead .data
    | computed => exact c.declared_behind lead .computed
    | method => exact c.declared_behind lead .method
    | event =>
      refine congrArg Except.ok ?_
      rw [List.map_append, hevents (fun s => .dispatchers s.dispatchers) fun _ => rfl,
        Component.forwardedEvents_behind hlead]
    | slot => exact congrArg Except.ok (Component.slots_behind hlead c)

/-- A mark that no blank starts stands in a text whether or not blanks come before it. -/
theorem Text.hasMark_append {lead : List Char} (hlead : ∀ c ∈ lead, isBlank c) {d : Char}
    (hd : isBlank d = false) (mark cs : List Char) :
    hasMark (d :: mark) (lead ++ cs) = hasMark (d :: mark) cs := by
  induction lead with
  | nil => rfl
  | cons c lead ih =>
    have hc : after? (d :: mark) (c :: (lead ++ cs)) = none :=
      after?_cons_of_ne (ne_of_isBlank (hlead c List.mem_cons_self) hd) mark _
    rw [← ih fun e he => hlead e (List.mem_cons_of_mem _ he)]
    simp only [hasMark, List.cons_append, cutAtMark?, hc, Option.isSome_map]

theorem Dialect.detect_behind {lead : List Char} (hlead : ∀ c ∈ lead, isBlank c) (c : Component) :
    Dialect.detect (c.behind lead) = Dialect.detect c := by
  unfold detect
  rw [Component.hasDefinition_behind]
  change (if c.hasDefinition || hasMark _ (lead ++ c.markup) then _ else _) = _
  rw [hasMark_append hlead (by decide)]

end ComponentDoc
