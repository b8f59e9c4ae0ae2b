import ComponentDoc.Binding.Markup
import ComponentDoc.Proofs.Component.Cuts
import ComponentDoc.Proofs.Component.Parts

/-!
Where the slots and the events of the markup stand. Each of them is a piece of one tag, and both ends of the piece
are boundaries of the markup and of the file that the markup was blanked from. Main statement: this holds of every
occurrence, however malformed the markup is, and its tags are read without a cut that fails.
-/
namespace ComponentDoc.Component

open Text

/-- Blanking makes no edges. -/
theorem edge_of_blankOut {spans : List Span} {text : List Char} {n : Nat}
    (h : Edge (blankOut spans 0 text) n) : Edge text n := by
  obtain ⟨m, d, rest', ⟨before', htext, rfl⟩, hd, hn⟩ := h
  obtain ⟨before, rest, rfl, rfl, -, -⟩ := exists_of_blankOut_eq_cons hd htext
  rw [byteLength_blankOut] at hn
  exact ⟨byteLength before, d, rest, ⟨before, rfl, rfl⟩, hd, hn⟩

/-- The occurrence is written in the markup as a piece of a tag, which opens outside of every comment. -/
structure PlacedIn (c : Component) (tag : Tag) (o : Occurrence) (written : List Char) : Prop where
  opener : ∃ rest, StandsAt c.markup tag.start ('<' :: rest)
  outside : ∀ comment ∈ c.markupComments, comment.span.has tag.start = false
  anchored : tag.start ∈ o.anchors
  within : ∃ stop, tagIn? c.markup tag.start = some (tag, stop) ∧ tag.start ≤ o.ident.start ∧
    o.ident.stop ≤ stop ∧ stop ≤ byteLength c.source
  boundary : ∀ n, n = o.ident.start ∨ n = o.ident.stop → OnBoundary c.markup n ∧ OnBoundary c.source n
  text : slice? c.markup o.ident.start o.ident.stop = some written

/-- What every tag of a component is. -/
structure OpensIn (c : Component) (stop : Nat) (tag : Tag) : Prop extends tag.StandsIn c.markup stop where
  reads : tagIn? c.markup tag.start = some (tag, stop)
  outside : ∀ comment ∈ c.markupComments, comment.span.has tag.start = false

theorem exists_opensIn_of_mem_tags {c : Component} {tag : Tag} (h : tag ∈ c.tags) : ∃ stop, OpensIn c stop tag := by
  obtain ⟨n, rest, stop, hrest, ht, hout⟩ := standsAt_of_mem_tagsFrom h
  rw [Nat.zero_add] at ht hout
  obtain ⟨rfl, hstands⟩ := Tag.standsIn_of_tagAt? hrest ht
  refine ⟨stop, hstands, (tagIn?_of_standsAt hrest).trans ht, ?_⟩
  intro comment hcomment
  simp only [List.any_map, List.any_eq_false] at hout
  simpa using hout comment hcomment

/-- Any piece of the name of an attribute is between edges. -/
theorem Attribute.StandsIn.framed_piece {text : List Char} {start stop : Nat} {a : Attribute}
    (h : a.StandsIn text start stop) {front piece back : List Char} (hname : a.name = front ++ (piece ++ back))
    (hpiece : piece ≠ []) : Framed text (a.start + byteLength front) piece ∧ start ≤ a.start + byteLength front ∧
      a.start + byteLength front + byteLength piece ≤ stop := by
  have hplain : ∀ c ∈ piece, c ≠ ' ' := by
    rintro c hc rfl
    exact absurd (h.name_plain ' ' (by simp [hname, hc])) (by decide)
  have hwithin := h.name_within
  obtain ⟨rest, hstands⟩ := h.name.stands
  rw [hname, List.append_assoc, List.append_assoc] at hstands
  rw [hname, byteLength_append, byteLength_append] at hwithin
  refine ⟨framed_of_head_of_last hstands.append (by simp [hpiece]) ?_ ?_, by omega, by omega⟩
  · intro c hc
    rw [List.head?_append_of_ne_nil _ hpiece] at hc
    exact hplain c (List.mem_of_head? hc)
  · intro c hc
    exact hplain c (List.mem_of_getLast? hc)

theorem eq_quote_of_not {c : Char} (h : (c != '"' && c != '\'') = false) : c = '"' ∨ c = '\'' := by
  by_contra hne
  rw [not_or] at hne
  simp [hne] at h

/-- A fired name stands between two quotes. -/
theorem exists_quotes_of_firedAt? {cs name : List Char} {offset start stop : Nat}
    (h : firedAt? cs offset = some (name, start, stop)) : ∃ front q q' rest, cs = front ++ q :: (name ++ q' :: rest) ∧
      (q = '"' ∨ q = '\'') ∧ (q' = '"' ∨ q' = '\'') ∧ start = offset + byteLength front + 1 := by
  obtain ⟨args, hargs, hread⟩ := Option.bind_eq_some_iff.mp h
  obtain rfl := after?_eq_some_iff.mp hargs
  simp only at hread
  split at hread
  · next q more hmore =>
    split_ifs at hread with hq hend
    simp only [Option.some.injEq, Prod.mk.injEq] at hread
    obtain ⟨hname, rfl, -⟩ := hread
    simp only [Bool.or_eq_true, not_or, Nat.ble_eq, not_le] at hend
    have hargs' := List.takeWhile_append_dropWhile (p := isBlank) (l := args)
    have hmore' := List.takeWhile_append_dropWhile (p := fun c => c != '"' && c != '\'') (l := more)
    rw [hname] at hmore' hend
    -- The name does not take the rest of the text, so that a quote comes after it.
    cases hrest : more.dropWhile fun c => c != '"' && c != '\'' with
    | nil =>
      rw [hrest, List.append_nil] at hmore'
      rw [hmore'] at hend
      exact absurd hend.2 (lt_irrefl _)
    | cons q' rest =>
      have hq' := head?_dropWhile_of_some (c := q') (by rw [hrest]; rfl)
      rw [hrest] at hmore'
      rw [hmore, ← hmore'] at hargs'
      refine ⟨"fire(".toList ++ args.takeWhile isBlank, q, q', rest, ?_, ?_, ?_, ?_⟩
      · rw [List.append_assoc, hargs']
      · exact eq_quote_of_not (by simpa using hq)
      · exact eq_quote_of_not hq'
      · have hfire : byteLength "fire(".toList = 5 := by decide
        rw [byteLength_append, hfire]
        omega
  · cases hread

theorem standsAt_of_mem_firedFrom {taken offset start : Nat} {previous : Option Char} {cs name : List Char}
    (h : (name, start) ∈ firedFrom taken previous cs offset) : ∃ n rest stop, StandsAt cs n rest ∧
      firedAt? rest (offset + n) = some (name, start, stop) := by
  induction cs generalizing taken previous offset with
  | nil => simp [firedFrom] at h
  | cons c cs ih =>
    have hlater {taken : Nat} (h : (name, start) ∈ firedFrom taken (some c) cs (offset + c.utf8Size)) :
        ∃ n rest stop, StandsAt (c :: cs) n rest ∧ firedAt? rest (offset + n) = some (name, start, stop) := by
      obtain ⟨n, rest, stop, hrest, hfired⟩ := ih h
      rw [Nat.add_assoc] at hfired
      exact ⟨c.utf8Size + n, rest, stop, standsAt_cons_iff.mpr (.inr ⟨n, rfl, hrest⟩), hfired⟩
    unfold firedFrom at h
    split_ifs at h
    · exact hlater h
    · split at h
      · next found place stop hfired =>
        rcases List.mem_cons.mp h with heq | hm
        · obtain ⟨rfl, rfl⟩ := Prod.mk.inj heq
          exact ⟨0, c :: cs, stop, standsAt_zero _, hfired⟩
        · exact hlater hm
      · exact hlater h

theorem framed_of_mem_firedFrom {text value name : List Char} {n start : Nat} (h : Framed text n value)
    (hname : (name, start) ∈ firedFrom 0 none value n) : Framed text start name ∧ n ≤ start ∧
      start + byteLength name ≤ n + byteLength value := by
  obtain ⟨m, rest, stop, hrest, hfired⟩ := standsAt_of_mem_firedFrom hname
  obtain ⟨front, q, q', after, rfl, hq, hq', rfl⟩ := exists_quotes_of_firedAt? hfired
  obtain ⟨before, rfl, rfl⟩ := hrest
  obtain ⟨behind, hstands⟩ := h.stands
  have hsize : q.utf8Size = 1 := by rcases hq with rfl | rfl <;> decide
  have hspace : q ≠ ' ' := by rcases hq with rfl | rfl <;> decide
  have hspace' : q' ≠ ' ' := by rcases hq' with rfl | rfl <;> decide
  have hquote : StandsAt text (n + byteLength before + byteLength front) (q :: (name ++ q' :: (after ++ behind))) := by
    apply StandsAt.append
    apply StandsAt.append
    simpa using hstands
  have hframed := framed_of_between hquote hspace hspace'
  rw [hsize] at hframed
  refine ⟨by simpa [Nat.add_assoc] using hframed, by omega, ?_⟩
  simp only [byteLength_append, byteLength_cons, hsize]
  omega

/-- No value names the slot that the tag opens. -/
def Unnamed (tag : Tag) : Prop :=
  ∀ a value n, tag.attributes.find? (·.name == "name".toList) = some a → a.value = some (value, n) → value = []

theorem mem_anchors_ofName (id : Identity) (name : String) (kind : EntityKind) (visibility : Visibility)
    (ident : Span) (anchor : Nat) : anchor ∈ (Occurrence.ofName id name kind visibility ident [anchor]).anchors := by
  simp only [Occurrence.ofName, Occurrence.addAnchors]
  split_ifs with h
  · simpa using h
  · simp

section

variable {source : List Char} {c : Component} {tag : Tag} {stop : Nat} (hmade : MadeOf source c)
  (htag : OpensIn c stop tag)
include hmade htag

/-- A piece of a tag between two edges is where an occurrence may stand. -/
theorem placedIn_of_framed {n : Nat} {piece : List Char} {o : Occurrence} (h : Framed c.markup n piece)
    (hstart : tag.start ≤ n) (hstop : n + byteLength piece ≤ stop) (hident : o.ident = ⟨n, n + byteLength piece⟩)
    (hanchor : tag.start ∈ o.anchors) : PlacedIn c tag o piece := by
  have hboundary {m : Nat} (hm : Edge c.markup m) : OnBoundary c.markup m ∧ OnBoundary c.source m := by
    refine ⟨hm.onBoundary, ?_⟩
    rw [hmade.markup] at hm
    rw [hmade.source_eq]
    exact (edge_of_blankOut hm).onBoundary
  have hlength : byteLength c.markup = byteLength c.source := by
    rw [hmade.markup, hmade.source_eq, byteLength_blankOut]
  obtain ⟨last, hlast⟩ := htag.closes
  have hend := hlast.le_byteLength
  obtain ⟨rest, before, hrest, hbefore⟩ := h.stands
  refine ⟨htag.opens, htag.outside, hanchor, ⟨stop, htag.reads, ?_, ?_, by omega⟩, ?_, ?_⟩
  · rwa [hident]
  · rwa [hident]
  · rw [hident]
    rintro m (rfl | rfl)
    · exact hboundary h.start_edge
    · exact hboundary h.stop_edge
  · rw [hident, slice?_eq_some_iff]
    exact ⟨before, rest, by simpa using hrest, hbefore, by rw [byteLength_append, hbefore]⟩

theorem placedIn_markupOccurrence {n : Nat} {name : List Char} (kind : EntityKind) (h : Framed c.markup n name)
    (hstart : tag.start ≤ n) (hstop : n + byteLength name ≤ stop) :
    PlacedIn c tag (markupOccurrence tag kind name n) (markupOccurrence tag kind name n).name.toList := by
  have hname : (markupOccurrence tag kind name n).name.toList = name := String.toList_ofList
  rw [hname]
  exact placedIn_of_framed hmade htag h hstart hstop rfl (mem_anchors_ofName ..)

/-- A slot is placed at its name or, where it has none, at the name of its tag. -/
theorem placedIn_slot (hslot : tag.name = "slot".toList) :
    (¬ Unnamed tag ∧ PlacedIn c tag (slot tag) (slot tag).name.toList) ∨
      (Unnamed tag ∧ (slot tag).name = defaultSlot ∧ PlacedIn c tag (slot tag) "slot".toList) := by
  unfold slot
  split
  · next d name n hfound =>
    obtain ⟨a, hfind, hvalue⟩ := Option.bind_eq_some_iff.mp hfound
    obtain ⟨hframed, hle, hle'⟩ := (htag.attributes a (List.mem_of_find?_eq_some hfind)).value _ n hvalue
    refine .inl ⟨fun hunnamed => ?_, placedIn_markupOccurrence hmade htag .slot hframed hle hle'⟩
    cases hunnamed a _ n hfind hvalue
  · next hnone =>
    refine .inr ⟨?_, rfl, ?_⟩
    · intro a value n hfind hvalue
      cases value with
      | nil => rfl
      | cons d name => exact absurd (Option.bind_eq_some_iff.mpr ⟨a, hfind, hvalue⟩) (hnone d name n)
    · rw [← hslot]
      exact placedIn_of_framed hmade htag htag.name (by omega) htag.name_within rfl (mem_anchors_ofName ..)

theorem placedIn_of_forwarded? {a : Attribute} {o : Occurrence} (ha : a ∈ tag.attributes)
    (h : forwarded? tag a = some o) : PlacedIn c tag o o.name.toList := by
  have hstands := htag.attributes a ha
  unfold forwarded? at h
  split at h
  · next directive hvalue hdirective =>
    split at h
    · cases h
    · next name hname =>
      obtain rfl := Option.some.inj h
      have hwhole := after?_eq_some_iff.mp hdirective
      rw [← List.takeWhile_append_dropWhile (p := (· != '|')) (l := directive)] at hwhole
      obtain ⟨hframed, hle, hle'⟩ := hstands.framed_piece hwhole hname
      exact placedIn_markupOccurrence hmade htag .event hframed hle hle'
  · cases h

theorem placedIn_of_mem_fired {a : Attribute} {o : Occurrence} (ha : a ∈ tag.attributes)
    (h : o ∈ fired tag a) : PlacedIn c tag o o.name.toList := by
  unfold fired at h
  split at h
  · next value n _ hvalue _ =>
    obtain ⟨⟨name, start⟩, hmem, rfl⟩ := List.mem_map.mp h
    obtain ⟨hframed, hle, hle'⟩ := (htag.attributes a ha).value value n hvalue
    obtain ⟨hframed', hle''⟩ := framed_of_mem_firedFrom hframed hmem
    exact placedIn_markupOccurrence hmade htag .event hframed' (by omega) (by omega)
  · cases h

end

/-- The tags are read without a cut that fails, and what they tell is written where it is said to stand. -/
structure WellPlaced (c : Component) : Prop where
  tags_read : Bytewise.tags (c.markupComments.map Comment.Source.span) c.markup 0 = .ok c.tags
  slots : ∀ o ∈ c.slots, ∃ tag ∈ c.tags, (¬ Unnamed tag ∧ PlacedIn c tag o o.name.toList) ∨
    (Unnamed tag ∧ o.name = defaultSlot ∧ PlacedIn c tag o "slot".toList)
  forwarded : ∀ o ∈ c.forwardedEvents, ∃ tag ∈ c.tags, PlacedIn c tag o o.name.toList
  fired : ∀ o ∈ c.firedEvents, ∃ tag ∈ c.tags, PlacedIn c tag o o.name.toList

theorem wellPlaced_of_parse {source : List Char} {path : Option String} {c : Component}
    (h : parse source path = .ok c) : c.WellPlaced := by
  have hmade := madeOf_of_parse h
  refine ⟨Bytewise.tags_bytes (standsAt_zero _), ?_, ?_, ?_⟩
  · intro o ho
    obtain ⟨tag, htag, rfl⟩ := List.mem_map.mp ho
    obtain ⟨hmem, hname⟩ := List.mem_filter.mp htag
    obtain ⟨stop, hopens⟩ := exists_opensIn_of_mem_tags hmem
    exact ⟨tag, hmem, placedIn_slot hmade hopens (beq_iff_eq.mp hname)⟩
  · intro o ho
    obtain ⟨os, hos, ho⟩ := List.mem_flatten.mp ho
    obtain ⟨tag, hmem, rfl⟩ := List.mem_map.mp hos
    obtain ⟨a, ha, hforwarded⟩ := List.mem_filterMap.mp ho
    obtain ⟨stop, hopens⟩ := exists_opensIn_of_mem_tags hmem
    exact ⟨tag, hmem, placedIn_of_forwarded? hmade hopens ha hforwarded⟩
  · intro o ho
    obtain ⟨os, hos, ho⟩ := List.mem_flatten.mp ho
    obtain ⟨tag, hmem, rfl⟩ := List.mem_map.mp hos
    obtain ⟨os, hos, ho⟩ := List.mem_flatten.mp ho
    obtain ⟨a, ha, rfl⟩ := List.mem_map.mp hos
    obtain ⟨stop, hopens⟩ := exists_opensIn_of_mem_tags hmem
    exact ⟨tag, hmem, placedIn_of_mem_fired hmade hopens ha ho⟩

/-- A style, a slot that is commented out, and a tag that does not end, with characters of two bytes. -/
def brokenSource : List Char :=
  "é<style>p</style><!-- <slot name=\"no\"/> --><slot name=\"hé\"/><slot/>".toList ++
    "<a on:tap|once on:x=\"fire('né')\"><b \x7b'\\é".toList

theorem wellPlaced_of_parse_broken : ∃ c, parse brokenSource none = .ok c ∧ c.WellPlaced ∧
    (c.slots ++ c.forwardedEvents ++ c.firedEvents).map (fun o => (o.name, o.ident.start, o.ident.stop)) =
      [("hé", 56, 59), ("default", 63, 67), ("tap", 75, 78), ("né", 96, 99)] := by
  have h : (parse brokenSource none).toOption.map (fun c =>
      (c.slots ++ c.forwardedEvents ++ c.firedEvents).map fun o => (o.name, o.ident.start, o.ident.stop)) =
      some [("hé", 56, 59), ("default", 63, 67), ("tap", 75, 78), ("né", 96, 99)] := by
    decide +kernel
  obtain ⟨c, hparse, hdata⟩ := Option.map_eq_some_iff.mp h
  have hparse' := toOption_eq_some_iff.mp hparse
  exact ⟨c, hparse', wellPlaced_of_parse hparse', hdata⟩

end ComponentDoc.Component
