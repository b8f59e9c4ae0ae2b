import ComponentDoc.Proofs.Component.Parts

namespace ComponentDoc.Component

open Text

/-- The text ends in a tag that lacks its end: its name, and perhaps blanks. -/
def EndsInName (name before : List Char) : Prop :=
  ∃ lead tag blanks, (tag = '<' :: name ∨ tag = '<' :: '/' :: name) ∧ (∀ c ∈ blanks, isBlank c) ∧
    before = lead ++ tag ++ blanks

/-- The last character of the text is outside of the spans. -/
def LastOutside (spans : List Span) (before : List Char) : Prop :=
  ∃ front x, before = front ++ [x] ∧ spans.any (·.has (byteLength front)) = false

section

variable {name text : List Char} {spans : List Span}

theorem EndsInName.concat {before : List Char} (h : EndsInName name before) {c : Char} (hc : isBlank c) :
    EndsInName name (before ++ [c]) := by
  obtain ⟨lead, tag, blanks, htag, hblanks, rfl⟩ := h
  refine ⟨lead, tag, blanks ++ [c], htag, ?_, by simp⟩
  intro d hd
  rcases List.mem_append.mp hd with hd | hd
  · exact hblanks d hd
  · rwa [List.mem_singleton.mp hd]

theorem LastOutside.of_mark {before mark rest : List Char} (hmark : IsPlain mark) (hne : mark ≠ [])
    (h : blankOut spans 0 text = blankOut spans 0 before ++ (mark ++ rest)) :
    LastOutside spans (before ++ mark) := by
  obtain ⟨front, x, rfl, houtside⟩ := exists_last_outside_of_blankOut hmark hne h
  refine ⟨before ++ front, x, by simp, ?_⟩
  rwa [Nat.zero_add, byteLength_blankOut, ← byteLength_append] at houtside

variable (hspans : ∀ s ∈ spans, ∃ before rest, text = before ++ rest ∧ byteLength before = s.start ∧
  ¬ EndsInName name before)
include hspans

/-- No span goes on behind a name, as it would have to start there. -/
theorem outside_behind_name {before rest : List Char} (htext : text = before ++ rest)
    (hlast : LastOutside spans before) (hname : EndsInName name before) :
    spans.any (·.has (byteLength before)) = false := by
  obtain ⟨front, x, rfl, hfront⟩ := hlast
  rw [List.any_eq_false] at hfront ⊢
  intro s hs hhas
  obtain ⟨before', rest', htext', hstart, hfinished⟩ := hspans s hs
  have hnot := hfront s hs
  rw [Span.has_iff] at hhas hnot
  rw [byteLength_append, byteLength_cons, byteLength_nil] at hhas
  have hafter : byteLength front < byteLength before' := by omega
  rw [htext, List.append_assoc] at htext'
  rcases List.append_eq_append_iff.mp htext' with ⟨more, rfl, hmore⟩ | ⟨more, rfl, _⟩
  · rw [byteLength_append] at hafter hstart
    cases more with
    | nil => exact absurd hafter (by simp)
    | cons d more =>
      obtain ⟨rfl, _⟩ := List.cons.inj hmore
      have hnil : more = [] := by
        by_contra hne
        have hpos := byteLength_pos hne
        rw [byteLength_cons] at hstart
        omega
      subst hnil
      exact hfinished hname
  · rw [byteLength_append] at hafter
    omega

/-- The end of a closing tag is not blanked out, nor is anything before it. -/
theorem exists_close_of_blankOut {before rest blanks' rest' : List Char} (htext : text = before ++ rest)
    (hlast : LastOutside spans before) (hname : EndsInName name before) (hblanks : ∀ c ∈ blanks', isBlank c)
    (h : blankOut spans (byteLength before) rest = blanks' ++ '>' :: rest') :
    ∃ more, rest = blanks' ++ '>' :: more := by
  have houtside := outside_behind_name hspans htext hlast hname
  induction blanks' generalizing before rest with
  | nil =>
    cases rest with
    | nil => cases h
    | cons d rest =>
      rw [blankOut_cons_of_outside houtside] at h
      obtain ⟨rfl, _⟩ := List.cons.inj h
      exact ⟨rest, rfl⟩
  | cons b blanks' ih =>
    cases rest with
    | nil => cases h
    | cons d rest =>
      rw [blankOut_cons_of_outside houtside] at h
      obtain ⟨rfl, hrest⟩ := List.cons.inj h
      have htext' : text = (before ++ [d]) ++ rest := by simp [htext]
      have hlast' : LastOutside spans (before ++ [d]) := ⟨before, d, rfl, houtside⟩
      have hname' := hname.concat (hblanks d List.mem_cons_self)
      have hlength : byteLength (before ++ [d]) = byteLength before + d.utf8Size :=
        byteLength_append before [d]
      rw [← hlength] at hrest
      obtain ⟨more, rfl⟩ := ih htext' hlast' hname' (fun c hc => hblanks c (List.mem_cons_of_mem _ hc)) hrest
        (outside_behind_name hspans htext' hlast' hname')
      exact ⟨more, rfl⟩

/-- What follows the name of an opening tag is not blanked out. -/
theorem head_of_blankOut {before rest tail attributes' rest' : List Char}
    (htext : text = before ++ (rest ++ tail)) (hlast : LastOutside spans before)
    (hname : EndsInName name before) (hattributes : IsAttributes attributes')
    (h : blankOut spans (byteLength before) rest = attributes' ++ '>' :: rest') :
    ∀ c ∈ rest.head?, c ≠ '>' → isBlank c := by
  intro c hc hgt
  have houtside := outside_behind_name hspans htext hlast hname
  cases rest with
  | nil => cases hc
  | cons d rest =>
    obtain rfl : d = c := Option.some.inj hc
    rw [blankOut_cons_of_outside houtside] at h
    cases attributes' with
    | nil => exact absurd (List.cons.inj h).1 hgt
    | cons b attributes' =>
      obtain ⟨rfl, _⟩ := List.cons.inj h
      exact hattributes.2 d rfl

/-- Where a block can be read in the blanked text, one can be read in the text. -/
theorem exists_block_of_blankOut (hplain : IsPlain name) (hgt : '>' ∉ name) {b : Block}
    (h : (blockKind name hgt).StandsIn b (blankOut spans 0 text)) :
    ∃ e, (blockKind name hgt).StandsIn e text ∧ e.span.start = b.span.start ∧
      spans.any (·.has b.span.start) = false := by
  obtain ⟨_, ⟨before', htext', hplace⟩, hb⟩ := h
  obtain ⟨attributes', content', _, rest', hattributes, ⟨blanks', hblanks, rfl⟩, rfl⟩ :=
    exists_blockAt?_iff.mp ⟨b, hb⟩
  have hopen : IsPlain ('<' :: name) := by simpa [IsPlain] using hplain
  have hclose : IsPlain ('<' :: '/' :: name) := by simpa [IsPlain] using hplain
  -- The two names stand in the text too, and then the `>` of each tag.
  have hsplit : blankOut spans 0 text =
      (before' ++ ('<' :: name ++ (attributes' ++ '>' :: content'))) ++
        ('<' :: '/' :: name ++ (blanks' ++ '>' :: rest')) := by
    simp [htext']
  obtain ⟨whole, tail, rfl, hwhole, htail, _⟩ := exists_of_blankOut_eq_append hclose (by simp) hsplit
  rw [hwhole] at hsplit
  obtain ⟨before, more, rfl, rfl, hmore, houtside⟩ :=
    exists_of_blankOut_eq_append hopen (by simp) hwhole.symm
  rw [byteLength_blankOut] at hplace
  rw [Nat.zero_add, ← byteLength_append] at hmore htail
  rw [Nat.zero_add, hplace] at houtside
  obtain ⟨_, _, hend, _⟩ := exists_of_blankOut_eq_cons (by decide) hmore.symm
  have hopened : before ++ ('<' :: name ++ more) ++ ('<' :: '/' :: name ++ tail) =
      (before ++ '<' :: name) ++ (more ++ ('<' :: '/' :: name ++ tail)) := by simp
  have hhead := head_of_blankOut hspans hopened (.of_mark hopen (by simp) hwhole.symm)
    ⟨before, _, [], .inl rfl, by simp, by simp⟩ hattributes hmore.symm
  obtain ⟨rest, rfl⟩ := exists_close_of_blankOut hspans (List.append_assoc ..).symm
    (.of_mark hclose (by simp) hsplit) ⟨_, _, [], .inr rfl, by simp, (List.append_nil _).symm⟩
    hblanks htail.symm
  -- The opening tag ends at the first `>` of the text, which may come before that of the blanked text.
  have hmem : '>' ∈ more := by simp [hend]
  obtain ⟨attributes, content, rfl, hfirst⟩ := List.eq_append_cons_of_mem hmem
  have hattributes : IsAttributes attributes := by
    refine ⟨hfirst, fun c hc => ?_⟩
    have hcm := List.mem_of_mem_head? hc
    exact hhead c (by simp [Option.mem_def.mp hc]) fun h => hfirst (h ▸ hcm)
  obtain ⟨e, he⟩ : ∃ e, (blockKind name hgt).at? ('<' :: name ++ (attributes ++ '>' :: content) ++
      ('<' :: '/' :: name ++ (blanks' ++ '>' :: rest))) b.span.start = some e :=
    exists_blockAt?_iff.mpr ⟨attributes, content, _, rest, hattributes, ⟨blanks', hblanks, rfl⟩, by simp⟩
  exact ⟨e, PartKind.standsIn_of_at? ⟨before, by simp, hplace⟩ he, PartKind.start_of_at? he, houtside⟩

end

def scriptSpans (source : List Char) : List Span :=
  (liveBlocks "script".toList source).map Block.span

/-- A file with its live scripts blanked out. -/
def scriptFree (source : List Char) : List Char :=
  blankOut (scriptSpans source) 0 source

/-- The live styles that do not start in a live script. -/
def stylesOutside (source : List Char) : List Block :=
  (liveBlocks "style".toList source).filter fun t => !(scriptSpans source).any (·.has t.span.start)

/-- Scripts take nothing into the file that changes the styles of it: what opens in a script is closed in it,
no script starts in a style, and none in a tag of a style that lacks its end. -/
structure ScriptsApart (source : List Char) : Prop where
  comments : ∀ s ∈ scriptSpans source, ∀ r ∈ htmlComments source, s.has r.span.start → r.span.stop ≤ s.stop
  styles : ∀ s ∈ scriptSpans source, ∀ t ∈ blocks "style".toList source,
    s.has t.span.start → t.span.stop ≤ s.stop
  starts : ∀ s ∈ scriptSpans source, ∀ t ∈ blocks "style".toList source, t.span.has s.start = false
  finished : ∀ s ∈ scriptSpans source, ∃ before rest, source = before ++ rest ∧
    byteLength before = s.start ∧ ¬ EndsInName "style".toList before

section

variable {source : List Char}

theorem markup_eq_blankOut_scriptFree {c : Component} (h : MadeOf source c) :
    c.markup = blankOut ((liveBlocks "style".toList source).map Block.span) 0 (scriptFree source) := by
  rw [h.markup, liveSpans, List.map_append, scriptFree, blankOut_blankOut]
  rfl

/-- Styles that open and end in a script hide nothing else. -/
theorem blankOut_stylesOutside (h : ∀ s ∈ scriptSpans source, ∀ t ∈ liveBlocks "style".toList source,
      s.has t.span.start → t.span.stop ≤ s.stop) :
    blankOut ((stylesOutside source).map Block.span) 0 (scriptFree source) =
      blankOut ((liveBlocks "style".toList source).map Block.span) 0 (scriptFree source) := by
  rw [scriptFree, blankOut_blankOut, blankOut_blankOut]
  apply blankOut_congr
  intro n
  rw [List.any_append, List.any_append]
  by_cases hn : (scriptSpans source).any (·.has n) = true
  · rw [hn, Bool.true_or, Bool.true_or]
  · congr 1
    rw [Bool.eq_iff_iff, List.any_map, List.any_map, List.any_eq_true, List.any_eq_true]
    constructor
    · rintro ⟨t, ht, htn⟩
      exact ⟨t, List.mem_of_mem_filter ht, htn⟩
    · rintro ⟨t, ht, htn⟩
      refine ⟨t, List.mem_filter.mpr ⟨ht, ?_⟩, htn⟩
      rw [Bool.not_eq_true', List.any_eq_false]
      intro s hs hst
      exact hn (List.any_eq_true.mpr ⟨s, hs, Span.has_of_within hst (h s hs t ht hst) htn⟩)

variable (h : ScriptsApart source)
include h

theorem mem_htmlComments_scriptFree_iff {r : Comment.Source} : r ∈ htmlComments (scriptFree source) ↔
    r ∈ htmlComments source ∧ (scriptSpans source).any (·.has r.span.start) = false := by
  apply mem_htmlComments_blankOut_iff _ _ le_rfl
  · intro s hs r hr
    obtain ⟨b, hb, rfl⟩ := List.mem_map.mp hs
    exact (mem_liveBlocks.mp hb).2 r hr
  · intro r hr _ hin
    obtain ⟨s, hs, hsr⟩ := List.any_eq_true.mp hin
    exact ⟨s, hs, hsr, h.comments s hs r hr hsr⟩

/-- The styles of the script-free text are those of the file that do not start in a script. -/
theorem blocks_scriptFree : blocks "style".toList (scriptFree source) =
    (blocks "style".toList source).filter fun t => !(scriptSpans source).any (·.has t.span.start) := by
  have hraw := leftmost_styles source
  have hfree := leftmost_styles (scriptFree source)
  have hkept := hraw.filter fun t => !(scriptSpans source).any (·.has t.span.start)
  refine hfree.toApart.eq_of_mem_iff hkept fun a => ?_
  apply hfree.mem_iff_of_start_le hkept (fun _ _ ha hb => ha.eq hb) _ _ le_rfl
  · intro t ht _
    obtain ⟨ht, hout⟩ := List.mem_filter.mp ht
    rw [Bool.not_eq_true'] at hout
    exact (hraw.sound t ht).blankOut fun n hn => outside_of_start (fun s hs => h.starts s hs t ht) hout hn
  · intro d hd _
    obtain ⟨e, he, hstart, hout⟩ := exists_block_of_blankOut h.finished (by simp [IsPlain]) (by simp) hd
    obtain ⟨t, ht, hte⟩ := hraw.complete e he
    rw [hstart] at hte
    refine ⟨t, List.mem_filter.mpr ⟨ht, ?_⟩, hte⟩
    rw [Bool.not_eq_true', List.any_eq_false]
    intro s hs hst
    rw [List.any_eq_false] at hout
    exact hout s hs (Span.has_of_within hst (h.styles s hs t ht hst) hte)

theorem liveBlocks_scriptFree : liveBlocks "style".toList (scriptFree source) = stylesOutside source := by
  unfold stylesOutside liveBlocks
  rw [blocks_scriptFree h, List.filter_filter, List.filter_filter]
  apply List.filter_congr
  intro t _
  rw [Bool.and_comm]
  by_cases hout : (scriptSpans source).any (·.has t.span.start) = true
  · rw [hout, Bool.not_true, Bool.false_and, Bool.false_and]
  · congr 2
    rw [Bool.eq_iff_iff, List.any_eq_true, List.any_eq_true]
    constructor
    · rintro ⟨r, hr, hrt⟩
      exact ⟨r, ((mem_htmlComments_scriptFree_iff h).mp hr).1, hrt⟩
    · rintro ⟨r, hr, hrt⟩
      refine ⟨r, (mem_htmlComments_scriptFree_iff h).mpr ⟨hr, ?_⟩, hrt⟩
      rw [List.any_eq_false]
      intro s hs hsr
      exact hout (List.any_eq_true.mpr ⟨s, hs, Span.has_of_within hsr (h.comments s hs r hr hsr) hrt⟩)

end

/-- The markup is the file without its scripts, with the live styles of the file blanked out. If none of these
opens in a script and reaches out of it, only those count that start outside of the scripts. If the scripts
are apart from all else, these are the styles that are found in the file without its scripts. -/
theorem markup_without_scripts {source : List Char} {path : Option String} {c : Component}
    (h : parse source path = .ok c) :
    c.markup = blankOut ((liveBlocks "style".toList source).map Block.span) 0 (scriptFree source) ∧
    ((∀ s ∈ scriptSpans source, ∀ t ∈ liveBlocks "style".toList source,
        s.has t.span.start → t.span.stop ≤ s.stop) →
      c.markup = blankOut ((stylesOutside source).map Block.span) 0 (scriptFree source)) ∧
    (ScriptsApart source → c.markup =
      blankOut ((liveBlocks "style".toList (scriptFree source)).map Block.span) 0 (scriptFree source)) := by
  have hmarkup := markup_eq_blankOut_scriptFree (madeOf_of_parse h)
  refine ⟨hmarkup, ?_, ?_⟩
  · intro hinner
    rw [hmarkup, blankOut_stylesOutside hinner]
  · intro hapart
    rw [hmarkup, liveBlocks_scriptFree hapart, blankOut_stylesOutside]
    intro s hs t ht
    exact hapart.styles s hs t (mem_liveBlocks.mp ht).1

def quotedStyle : List Char :=
  "<script>'<style></style>'</script><slot/><style></style>".toList

theorem liveBlocks_quotedStyle : liveBlocks "script".toList quotedStyle =
    [⟨⟨0, 34⟩, [], "'<style></style>'".toList, 8⟩] := rfl

set_option maxRecDepth 4096 in
theorem parse_quotedStyle : ∃ c, parse quotedStyle none = .ok c := by
  apply exists_parse
  rw [liveBlocks_quotedStyle]
  intro b hb
  obtain rfl := List.mem_singleton.mp hb
  exact ⟨_, by cbv⟩

theorem scriptsApart_quotedStyle : ScriptsApart quotedStyle := by
  have hspans : scriptSpans quotedStyle = [⟨0, 34⟩] := rfl
  have hcomments : htmlComments quotedStyle = [] := rfl
  have hstyles : blocks "style".toList quotedStyle = [⟨⟨9, 24⟩, [], [], 16⟩, ⟨⟨41, 56⟩, [], [], 48⟩] := rfl
  constructor
  · simp [hcomments]
  · rw [hspans, hstyles]
    decide
  · rw [hspans, hstyles]
    decide
  · rw [hspans]
    intro s hs
    obtain rfl := List.mem_singleton.mp hs
    exact ⟨[], quotedStyle, rfl, rfl, by simp [EndsInName]⟩

/-- The slot between the script and the style stays. -/
theorem markup_without_scripts_quotedStyle : ∃ c, parse quotedStyle none = .ok c ∧
    ScriptsApart quotedStyle ∧
    c.markup = blankOut ((liveBlocks "style".toList (scriptFree quotedStyle)).map Block.span) 0
      (scriptFree quotedStyle) ∧
    c.markup = List.replicate 34 ' ' ++ "<slot/>".toList ++ List.replicate 15 ' ' := by
  obtain ⟨c, hc⟩ := parse_quotedStyle
  have hmarkup := (markup_without_scripts hc).2.2 scriptsApart_quotedStyle
  exact ⟨c, hc, scriptsApart_quotedStyle, hmarkup, hmarkup.trans (by cbv)⟩

def quotedStyleTag : List Char :=
  "<script>'<style>'</script><slot/><style></style>".toList

theorem liveBlocks_quotedStyleTag : liveBlocks "script".toList quotedStyleTag =
    [⟨⟨0, 26⟩, [], "'<style>'".toList, 8⟩] := rfl

set_option maxRecDepth 4096 in
theorem parse_quotedStyleTag : ∃ c, parse quotedStyleTag none = .ok c := by
  apply exists_parse
  rw [liveBlocks_quotedStyleTag]
  intro b hb
  obtain rfl := List.mem_singleton.mp hb
  exact ⟨_, by cbv⟩

/-- A string that opens a style takes away the slot behind its script. -/
theorem slot_blanked_by_quotedStyleTag : ∃ c, parse quotedStyleTag none = .ok c ∧
    c.markup = List.replicate 48 ' ' ∧
    blankOut ((liveBlocks "style".toList (scriptFree quotedStyleTag)).map Block.span) 0
      (scriptFree quotedStyleTag) =
        List.replicate 26 ' ' ++ "<slot/>".toList ++ List.replicate 15 ' ' := by
  obtain ⟨c, hc⟩ := parse_quotedStyleTag
  refine ⟨c, hc, ?_, by cbv⟩
  rw [(madeOf_of_parse hc).markup]
  cbv

end ComponentDoc.Component
