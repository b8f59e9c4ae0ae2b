import ComponentDoc.Proofs.Component.Parts

/-!
Scripts that are commented out. Which scripts are read is decided by the comments of the file, while the
component keeps the comments of its markup. Both are the same just when no comment of the file opens in a live
script or style. A script behind a comment that opens in such a block and reaches out of it may be left out
although it is in no comment of the markup.
-/
namespace ComponentDoc.Component

open Text

/-- The comment opens in a script or style that is blanked out. -/
def OpensInBlock (source : List Char) (r : Comment.Source) : Prop :=
  ∃ s ∈ liveSpans source, s.has r.span.start

/-- The comment opens in a script or style that is blanked out, and ends there. -/
def LiesInBlock (source : List Char) (r : Comment.Source) : Prop :=
  ∃ s ∈ liveSpans source, s.has r.span.start ∧ r.span.stop ≤ s.stop

instance (source : List Char) (r : Comment.Source) : Decidable (OpensInBlock source r) :=
  inferInstanceAs (Decidable (∃ s ∈ liveSpans source, s.has r.span.start))

instance (source : List Char) (r : Comment.Source) : Decidable (LiesInBlock source r) :=
  inferInstanceAs (Decidable (∃ s ∈ liveSpans source, s.has r.span.start ∧ r.span.stop ≤ s.stop))

theorem any_has_iff_opensInBlock {source : List Char} {r : Comment.Source} :
    (liveSpans source).any (·.has r.span.start) ↔ OpensInBlock source r := by
  simp [OpensInBlock]

/-- A script is found just when no script that is found before it reaches over its start. -/
theorem mem_blocks_iff_not_reached {source : List Char} {b : Block} (hb : scriptKind.StandsIn b source) :
    b ∈ blocks "script".toList source ↔
      ∀ e ∈ blocks "script".toList source, e.span.start < b.span.start → e.span.stop ≤ b.span.start := by
  have hfound := leftmost_scripts source
  constructor
  · intro hm e he hlt
    by_contra hover
    have hhas : e.span.has b.span.start := Span.has_iff.mpr ⟨hlt.le, by omega⟩
    rw [hfound.eq_of_has he hm hhas] at hlt
    exact absurd hlt (lt_irrefl _)
  · intro hreach
    obtain ⟨e, he, hhas⟩ := hfound.complete b hb
    obtain ⟨hle, hlt⟩ := Span.has_iff.mp hhas
    have heq : e.span.start = b.span.start := by
      by_contra hne
      have hover := hreach e he (lt_of_le_of_ne hle hne)
      omega
    rwa [← (hfound.sound e he).eq hb heq]

section

variable {source : List Char} {c : Component} (h : MadeOf source c)
include h

theorem markupComments_eq_iff : c.markupComments = htmlComments source ↔
    ∀ r ∈ htmlComments source, ¬ OpensInBlock source r := by
  rw [h.markupComments, h.markup,
    htmlComments_blankOut_eq_iff fun s hs r hr => has_start_of_mem_liveSpans hs hr]
  simp only [← any_has_iff_opensInBlock, Bool.not_eq_true]

/-- A place is in a comment of the markup just when it is in one of the file, if each comment up to it that
opens in a block lies in one and does not hold the place. -/
theorem outside_markupComments_iff {place : Nat}
    (hopens : ∀ r ∈ htmlComments source, r.span.start ≤ place → OpensInBlock source r →
      LiesInBlock source r ∧ ¬ r.span.has place) :
    (∀ r ∈ c.markupComments, ¬ r.span.has place) ↔ ∀ r ∈ htmlComments source, ¬ r.span.has place := by
  have hmem (r : Comment.Source) (hr : r.span.has place) :
      r ∈ c.markupComments ↔ r ∈ htmlComments source := by
    have hle := (Span.has_iff.mp hr).1
    have hkept : r ∈ c.markupComments ↔ r ∈ htmlComments source ∧
        (liveSpans source).any (·.has r.span.start) = false := by
      rw [h.markupComments, h.markup]
      apply mem_htmlComments_blankOut_iff (fun s hs r hr => has_start_of_mem_liveSpans hs hr) _ hle
      intro r hr hle hin
      exact (hopens r hr hle (any_has_iff_opensInBlock.mp hin)).1
    rw [hkept, and_iff_left_of_imp]
    intro hraw
    rw [← Bool.not_eq_true, any_has_iff_opensInBlock]
    intro hin
    exact (hopens r hraw hle hin).2 hr
  constructor
  · intro hout r hr hhas
    exact hout r ((hmem r hhas).mpr hr) hhas
  · intro hout r hr hhas
    exact hout r ((hmem r hhas).mp hr) hhas

end

/-- The scripts of a component are read from the blocks that start outside of the comments of the file. These
are the comments of the markup just when none of them opens in a live block. A script that stands in the file
is among those read just when it starts outside of the comments of the markup and no script that is found
before it reaches over its start, if each comment up to there that opens in a live block lies in one and does
not hold the start. -/
theorem scripts_read_outside_comments {source : List Char} {path : Option String} {c : Component}
    (h : parse source path = .ok c) :
    List.Forall₂ (fun b script => b.script = .ok script) (liveBlocks "script".toList source) c.scripts ∧
    (c.markupComments = htmlComments source ↔ ∀ r ∈ htmlComments source, ¬ OpensInBlock source r) ∧
    ∀ b, scriptKind.StandsIn b source →
      (∀ r ∈ htmlComments source, r.span.start ≤ b.span.start → OpensInBlock source r →
        LiesInBlock source r ∧ ¬ r.span.has b.span.start) →
      (b ∈ liveBlocks "script".toList source ↔
        (∀ r ∈ c.markupComments, ¬ r.span.has b.span.start) ∧
        ∀ e ∈ blocks "script".toList source, e.span.start < b.span.start → e.span.stop ≤ b.span.start) := by
  have hmade := madeOf_of_parse h
  refine ⟨hmade.scripts, markupComments_eq_iff hmade, ?_⟩
  intro b hb hopens
  rw [mem_liveBlocks, mem_blocks_iff_not_reached hb, outside_markupComments_iff hmade hopens, and_comm]
  simp only [Bool.not_eq_true]

def quotedWhole : List Char :=
  "<!--<script>a</script>--><script>'<!---->'</script><script></script>".toList

theorem liveBlocks_quotedWhole : liveBlocks "script".toList quotedWhole =
    [⟨⟨25, 51⟩, [], "'<!---->'".toList, 33⟩, ⟨⟨51, 68⟩, [], [], 59⟩] := rfl

set_option maxRecDepth 4096 in
theorem parse_quotedWhole : ∃ c, parse quotedWhole none = .ok c := by
  apply exists_parse
  rw [liveBlocks_quotedWhole]
  intro b hb
  simp only [List.mem_cons, List.not_mem_nil, or_false] at hb
  rcases hb with rfl | rfl
  · exact ⟨_, by cbv⟩
  · exact ⟨_, by cbv⟩

/-- A script behind one with a comment in a string is read, and one that is commented out is not. -/
theorem scripts_read_quotedWhole : ∃ c, parse quotedWhole none = .ok c ∧
    (∃ r ∈ htmlComments quotedWhole, OpensInBlock quotedWhole r) ∧
    ⟨⟨51, 68⟩, [], [], 59⟩ ∈ liveBlocks "script".toList quotedWhole ∧
    ⟨⟨4, 22⟩, [], ['a'], 12⟩ ∉ liveBlocks "script".toList quotedWhole := by
  obtain ⟨c, hc⟩ := parse_quotedWhole
  have hcomments : htmlComments quotedWhole =
    [⟨.html, ⟨0, 25⟩, "<script>a</script>".toList⟩, ⟨.html, ⟨34, 41⟩, []⟩] := rfl
  have hblocks : blocks "script".toList quotedWhole = [⟨⟨4, 22⟩, [], ['a'], 12⟩,
    ⟨⟨25, 51⟩, [], "'<!---->'".toList, 33⟩, ⟨⟨51, 68⟩, [], [], 59⟩] := rfl
  have hkept : c.markupComments = [⟨.html, ⟨0, 25⟩, "<script>a</script>".toList⟩] := by
    rw [(madeOf_of_parse hc).markupComments, (madeOf_of_parse hc).markup]
    rfl
  have hread := (scripts_read_outside_comments hc).2.2
  have hstands := (leftmost_scripts quotedWhole).sound
  simp only [hcomments, hblocks, hkept] at hread hstands ⊢
  refine ⟨c, hc, by decide, (hread _ (hstands _ (by simp)) (by decide)).mpr ⟨by decide, by simp⟩, ?_⟩
  rw [hread _ (hstands _ (by simp)) (by decide)]
  rintro ⟨hout, _⟩
  exact absurd hout (by decide)

def quotedHalf : List Char :=
  "<script>'<!--'</script><script>let b</script><!-- -->".toList

theorem liveBlocks_quotedHalf :
    liveBlocks "script".toList quotedHalf = [⟨⟨0, 23⟩, [], "'<!--'".toList, 8⟩] := rfl

set_option maxRecDepth 4096 in
theorem parse_quotedHalf : ∃ c, parse quotedHalf none = .ok c := by
  apply exists_parse
  rw [liveBlocks_quotedHalf]
  intro b hb
  obtain rfl := List.mem_singleton.mp hb
  exact ⟨_, by cbv⟩

/-- A string that opens a comment takes away the script behind it, which is in no comment of the markup. -/
theorem script_outside_comments_not_read : ∃ c b, parse quotedHalf none = .ok c ∧
    b ∈ blocks "script".toList quotedHalf ∧ (∀ r ∈ c.markupComments, ¬ r.span.has b.span.start) ∧
    b ∉ liveBlocks "script".toList quotedHalf := by
  obtain ⟨c, hc⟩ := parse_quotedHalf
  have hblocks : blocks "script".toList quotedHalf =
    [⟨⟨0, 23⟩, [], "'<!--'".toList, 8⟩, ⟨⟨23, 45⟩, [], "let b".toList, 31⟩] := rfl
  have hkept : c.markupComments = [⟨.html, ⟨45, 53⟩, [' ']⟩] := by
    rw [(madeOf_of_parse hc).markupComments, (madeOf_of_parse hc).markup]
    rfl
  refine ⟨c, ⟨⟨23, 45⟩, [], "let b".toList, 31⟩, hc, ?_⟩
  rw [hblocks, hkept, liveBlocks_quotedHalf]
  exact ⟨by simp, by decide, by simp⟩

end ComponentDoc.Component
