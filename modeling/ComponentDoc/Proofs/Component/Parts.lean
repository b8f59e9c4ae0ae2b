import ComponentDoc.Component.Basic
import ComponentDoc.Proofs.Component.Blanked
import ComponentDoc.Proofs.Sequence

namespace ComponentDoc.Component

open Text

def scriptKind : PartKind Block :=
  blockKind "script".toList (by simp)

def styleKind : PartKind Block :=
  blockKind "style".toList (by simp)

theorem leftmost_scripts (source : List Char) :
    Leftmost Block.span (fun b => scriptKind.StandsIn b source) (blocks "script".toList source) :=
  leftmost_blocks _ source

theorem leftmost_styles (source : List Char) :
    Leftmost Block.span (fun b => styleKind.StandsIn b source) (blocks "style".toList source) :=
  leftmost_blocks _ source

/-- The bytes of the scripts and styles that are not commented out. -/
def liveSpans (source : List Char) : List Span :=
  (liveBlocks "script".toList source ++ liveBlocks "style".toList source).map Block.span

theorem mem_liveBlocks {name source : List Char} {b : Block} : b ∈ liveBlocks name source ↔
    b ∈ blocks name source ∧ ∀ r ∈ htmlComments source, r.span.has b.span.start = false := by
  simp [liveBlocks]

/-- No live block starts in a comment. -/
theorem has_start_of_mem_liveSpans {source : List Char} {s : Span} (hs : s ∈ liveSpans source)
    {r : Comment.Source} (hr : r ∈ htmlComments source) : r.span.has s.start = false := by
  obtain ⟨b, hb, rfl⟩ := List.mem_map.mp hs
  rcases List.mem_append.mp hb with hb | hb
  · exact (mem_liveBlocks.mp hb).2 r hr
  · exact (mem_liveBlocks.mp hb).2 r hr

/-- The script in a block. -/
def Block.script (b : Block) : Except ExtractError ScriptBlock :=
  ScriptBlock.read b.content b.contentStart b.isModule b.isTypeScript

/-- The component is what its file is taken apart into. -/
structure MadeOf (source : List Char) (c : Component) : Prop where
  source_eq : c.source = source
  scripts : List.Forall₂ (fun b script => b.script = .ok script) (liveBlocks "script".toList source) c.scripts
  markup : c.markup = blankOut (liveSpans source) 0 source
  markupComments : c.markupComments = htmlComments c.markup

theorem madeOf_of_parse {source : List Char} {path : Option String} {c : Component}
    (h : parse source path = .ok c) : MadeOf source c := by
  obtain ⟨scripts, hscripts, h⟩ := bind_eq_ok_iff.mp h
  obtain rfl := Except.ok.inj h
  exact ⟨rfl, mapM_eq_ok_iff.mp hscripts, rfl, rfl⟩

/-- A file can be taken apart if its live scripts can be read. -/
theorem exists_parse {source : List Char} (path : Option String)
    (h : ∀ b ∈ liveBlocks "script".toList source, ∃ script, b.script = .ok script) :
    ∃ c, parse source path = .ok c := by
  obtain ⟨scripts, hscripts⟩ := exists_mapM_eq_ok_iff.mpr h
  exact ⟨_, bind_eq_ok_iff.mpr ⟨scripts, hscripts, rfl⟩⟩

end ComponentDoc.Component
