import ComponentDoc.Proofs.Component.Parts
import ComponentDoc.Proofs.Text.Bytes

/-!
The layout of the markup. Blocks may be blanked out byte by byte, one after another, even where they overlap: as
each of them starts and ends between two characters, the bytes still spell a text, and this text is the markup.
So every byte outside of the blocks is where it was, and so is every piece of text.
-/
namespace ComponentDoc.Text

/-- A text is read back from its bytes. -/
theorem fromUTF8?_bytes (cs : List Char) :
    String.fromUTF8? (bytes cs).toByteArray = some (String.ofList cs) := by
  have hbytes : (bytes cs).toByteArray = (String.ofList cs).toByteArray := rfl
  rw [hbytes, String.fromUTF8?, dif_pos (String.ofList cs).isValidUTF8]
  rfl

theorem bytes_replicate_space (n : Nat) : bytes (List.replicate n ' ') = List.replicate n ' '.toUInt8 := by
  induction n with
  | zero => rfl
  | succ n ih =>
    rw [List.replicate_succ, bytes_cons, ih]
    rfl

/-- Between two boundaries there are whole characters only. -/
theorem OnBoundary.apart {text rest : List Char} {place n : Nat} {c : Char} (h : OnBoundary text n)
    (hc : StandsAt text place (c :: rest)) : n ≤ place ∨ place + c.utf8Size ≤ n := by
  obtain ⟨before, after, htext, hn⟩ := h
  rcases Nat.le_total n place with hle | hle
  · exact .inl hle
  · obtain ⟨between, hbetween, rfl⟩ := hc.exists_between ⟨before, htext, hn⟩ hle
    cases between with
    | nil => exact .inl (by simp)
    | cons d between =>
      obtain ⟨rfl, _⟩ := List.cons.inj hbetween
      refine .inr ?_
      rw [byteLength_cons]
      omega

/-- A place off every boundary is inside of a character. -/
theorem exists_inside_of_not_onBoundary {text : List Char} {n : Nat} (hn : n ≤ byteLength text)
    (h : ¬ OnBoundary text n) :
    ∃ place c rest, StandsAt text place (c :: rest) ∧ place < n ∧ n < place + c.utf8Size := by
  induction text generalizing n with
  | nil =>
    obtain rfl : n = 0 := by simpa using hn
    exact absurd ⟨[], [], rfl, rfl⟩ h
  | cons c cs ih =>
    have hpos : 0 < n := by
      rcases Nat.eq_zero_or_pos n with rfl | hpos
      · exact absurd ⟨[], c :: cs, rfl, rfl⟩ h
      · exact hpos
    by_cases hlt : n < c.utf8Size
    · exact ⟨0, c, cs, standsAt_zero _, hpos, by omega⟩
    · obtain ⟨m, rfl⟩ := Nat.exists_eq_add_of_le (not_lt.mp hlt)
      have hm : ¬ OnBoundary cs m := by
        rintro ⟨before, after, rfl, rfl⟩
        exact h ⟨c :: before, after, rfl, byteLength_cons c before⟩
      rw [byteLength_cons] at hn
      obtain ⟨place, d, rest, hd, hstart, hstop⟩ := ih (by omega) hm
      exact ⟨c.utf8Size + place, d, rest, standsAt_cons_iff.mpr (.inr ⟨place, rfl, hd⟩), by omega, by omega⟩

end ComponentDoc.Text

namespace ComponentDoc.Component

open Text

/-- A byte of a stretch that is blanked out. Line ends stay. -/
def blankByte (b : UInt8) : UInt8 :=
  if b = '\n'.toUInt8 then b else ' '.toUInt8

/-- One stretch overwritten, byte by byte. -/
def blankSpan (bs : List UInt8) (s : Span) : List UInt8 :=
  bs.mapIdx fun n b => if s.has n then blankByte b else b

/-- Stretches overwritten one after another. They may overlap, and may start and end anywhere. -/
def blankBytes (spans : List Span) (bs : List UInt8) : List UInt8 :=
  spans.foldl blankSpan bs

theorem blankByte_blankByte (b : UInt8) : blankByte (blankByte b) = blankByte b := by
  by_cases hb : b = '\n'.toUInt8
  · simp [blankByte, hb]
  · have hspace : ' '.toUInt8 ≠ '\n'.toUInt8 := by decide
    simp [blankByte, hb, hspace]

theorem blankByte_eq_line_iff {b : UInt8} : blankByte b = '\n'.toUInt8 ↔ b = '\n'.toUInt8 := by
  have hspace : ' '.toUInt8 ≠ '\n'.toUInt8 := by decide
  by_cases hb : b = '\n'.toUInt8
  · simp [blankByte, hb]
  · simp [blankByte, hb, hspace]

/-- A byte is overwritten just when one of the stretches has it. -/
theorem getElem?_blankBytes (spans : List Span) (bs : List UInt8) (n : Nat) :
    (blankBytes spans bs)[n]? = bs[n]?.map fun b => if spans.any (·.has n) then blankByte b else b := by
  induction spans generalizing bs with
  | nil => simp [blankBytes]
  | cons s spans ih =>
    have hstep : blankBytes (s :: spans) bs = blankBytes spans (blankSpan bs s) := rfl
    rw [hstep, ih, blankSpan, List.getElem?_mapIdx, Option.map_map]
    congr 1
    funext b
    -- The stretches that come later overwrite a byte once more or leave it as it is.
    by_cases hs : s.has n = true
    · simp [hs, blankByte_blankByte]
    · simp [hs]

/-- A stretch that starts and ends between two characters. -/
def Whole (text : List Char) (s : Span) : Prop :=
  OnBoundary text s.start ∧ OnBoundary text s.stop

section

variable {text : List Char} {spans : List Span} (hwhole : ∀ s ∈ spans, Whole text s)
include hwhole

/-- A character is in the stretches with its first byte. -/
theorem any_has_of_whole {place : Nat} {c : Char} {rest : List Char} (hc : StandsAt text place (c :: rest))
    {i : Nat} (hi : i < c.utf8Size) : spans.any (·.has (place + i)) = spans.any (·.has place) := by
  have hsame (s : Span) (hs : s ∈ spans) : s.has (place + i) ↔ s.has place := by
    obtain ⟨hstart, hstop⟩ := hwhole s hs
    have hstart := hstart.apart hc
    have hstop := hstop.apart hc
    rw [Span.has_iff, Span.has_iff]
    omega
  rw [Bool.eq_iff_iff, List.any_eq_true, List.any_eq_true]
  exact ⟨fun ⟨s, hs, h⟩ => ⟨s, hs, (hsame s hs).mp h⟩, fun ⟨s, hs, h⟩ => ⟨s, hs, (hsame s hs).mpr h⟩⟩

theorem bytes_shown {place : Nat} {c : Char} {rest : List Char} (hc : StandsAt text place (c :: rest)) :
    bytes (if c != '\n' && spans.any (·.has place) then List.replicate c.utf8Size ' ' else [c]) =
      (String.utf8EncodeChar c).mapIdx fun i b =>
        if spans.any (·.has (place + i)) then blankByte b else b := by
  have hlength := String.length_utf8EncodeChar c
  have hsize (i : Nat) (hi : i < (String.utf8EncodeChar c).length) : i < c.utf8Size := hlength ▸ hi
  have hself : bytes [c] = String.utf8EncodeChar c := List.append_nil _
  by_cases hin : spans.any (·.has place) = true
  · by_cases hline : c = '\n'
    · subst hline
      rw [if_neg (by simp), hself]
      refine List.ext_getElem (by simp) fun i hi _ => ?_
      obtain rfl : i = 0 := Nat.lt_one_iff.mp hi
      rw [List.getElem_mapIdx, Nat.add_zero, if_pos hin]
      rfl
    · rw [if_pos (by simp [hline, hin]), bytes_replicate_space]
      refine List.ext_getElem (by simp [hlength]) fun i _ hi => ?_
      rw [List.length_mapIdx] at hi
      have hne : (String.utf8EncodeChar c)[i] ≠ '\n'.toUInt8 := by
        intro heq
        -- The byte of a line end is that character and no part of another.
        have hat : (bytes [c])[i]? = some '\n'.toUInt8 := by
          rw [hself, List.getElem?_eq_getElem hi, heq]
        obtain ⟨rest', before, hcs, _⟩ := (getElem?_bytes_eq_some_iff (by decide)).mp hat
        have hmem : '\n' ∈ [c] := by simp [hcs]
        exact hline (List.mem_singleton.mp hmem).symm
      rw [List.getElem_replicate, List.getElem_mapIdx, any_has_of_whole hwhole hc (hsize i hi), if_pos hin,
        blankByte, if_neg hne]
  · rw [if_neg (by simp [hin]), hself]
    refine List.ext_getElem (by simp) fun i hi _ => ?_
    rw [List.getElem_mapIdx, any_has_of_whole hwhole hc (hsize i hi), if_neg hin]

theorem bytes_blankOut_from {offset : Nat} {cs : List Char} (h : StandsAt text offset cs) :
    bytes (blankOut spans offset cs) =
      (bytes cs).mapIdx fun i b => if spans.any (·.has (offset + i)) then blankByte b else b := by
  induction cs generalizing offset with
  | nil => rfl
  | cons c cs ih =>
    have hnext (i : Nat) : offset + c.utf8Size + i = offset + (i + c.utf8Size) := by omega
    rw [blankOut, bytes_append, bytes_shown hwhole h, ih h.tail, bytes_cons, List.mapIdx_append,
      String.length_utf8EncodeChar]
    simp only [hnext]

/-- Blanked out byte by byte, the text is the one that is blanked out character by character. -/
theorem bytes_blankOut : bytes (blankOut spans 0 text) = blankBytes spans (bytes text) := by
  rw [bytes_blankOut_from hwhole (standsAt_zero text)]
  apply List.ext_getElem?
  intro n
  rw [getElem?_blankBytes, List.getElem?_mapIdx, Nat.zero_add]

/-- A boundary of the blanked text that is inside of no stretch was one before. -/
theorem onBoundary_of_blankOut {n : Nat} (hn : ∀ s ∈ spans, n ≤ s.start ∨ s.stop ≤ n)
    (h : OnBoundary (blankOut spans 0 text) n) : OnBoundary text n := by
  by_contra hoff
  have hle : n ≤ byteLength text := by
    obtain ⟨before, after, heq, rfl⟩ := h
    rw [← byteLength_blankOut spans 0 text, heq, byteLength_append]
    exact Nat.le_add_right _ _
  obtain ⟨place, c, rest, hc, hstart, hstop⟩ := exists_inside_of_not_onBoundary hle hoff
  have houtside : spans.any (·.has place) = false := by
    rw [List.any_eq_false]
    intro s hs hhas
    have hend := (hwhole s hs).2.apart hc
    have happart := hn s hs
    rw [Span.has_iff] at hhas
    omega
  -- The character around the place is kept, so the place is inside of it in the blanked text too.
  have hkept : StandsAt (blankOut spans 0 text) place (c :: blankOut spans (place + c.utf8Size) rest) := by
    obtain ⟨before, rfl, rfl⟩ := hc
    refine ⟨blankOut spans 0 before, ?_, byteLength_blankOut spans 0 before⟩
    rw [blankOut_append, Nat.zero_add, blankOut_cons_of_outside houtside]
  have happart := h.apart hkept
  omega

omit hwhole in
theorem slice?_blankOut_of_eq_some {start stop : Nat} (hout : ∀ s ∈ spans, stop ≤ s.start ∨ s.stop ≤ start)
    {piece : List Char} (h : slice? text start stop = some piece) :
    slice? (blankOut spans 0 text) start stop = some piece := by
  obtain ⟨before, after, rfl, rfl, rfl⟩ := slice?_eq_some_iff.mp h
  have hkept : blankOut spans (byteLength before) piece = piece := by
    apply blankOut_eq_self
    intro n hle hlt
    rw [List.any_eq_false]
    intro s hs hhas
    have happart := hout s hs
    rw [Span.has_iff] at hhas
    rw [byteLength_append] at happart
    omega
  refine slice?_eq_some_iff.mpr
    ⟨blankOut spans 0 before, blankOut spans (byteLength (before ++ piece)) after, ?_, ?_, ?_⟩
  · rw [blankOut_append, blankOut_append, Nat.zero_add, Nat.zero_add, hkept]
  · rw [byteLength_blankOut]
  · rw [byteLength_append, byteLength_blankOut, byteLength_append]

/-- A piece that no stretch touches is the same in both texts, and can be cut out of both or of none. -/
theorem slice?_blankOut {start stop : Nat} (hout : ∀ s ∈ spans, stop ≤ s.start ∨ s.stop ≤ start) :
    slice? (blankOut spans 0 text) start stop = slice? text start stop := by
  cases hpiece : slice? text start stop with
  | some piece => exact slice?_blankOut_of_eq_some hout hpiece
  | none =>
    by_contra hsome
    obtain ⟨piece, hblanked⟩ := Option.ne_none_iff_exists'.mp hsome
    obtain ⟨before, after, heq, hstart, hstop⟩ := slice?_eq_some_iff.mp hblanked
    have hle : start ≤ stop := by
      rw [byteLength_append] at hstop
      omega
    have hfirst : OnBoundary text start := by
      apply onBoundary_of_blankOut hwhole
      · intro s hs
        have happart := hout s hs
        omega
      · exact ⟨before, piece ++ after, by rw [heq, List.append_assoc], hstart⟩
    have hlast : OnBoundary text stop := by
      apply onBoundary_of_blankOut hwhole
      · intro s hs
        have happart := hout s hs
        omega
      · exact ⟨before ++ piece, after, heq, hstop⟩
    obtain ⟨front, rest, hfront⟩ := hfirst
    obtain ⟨front', rest', hfront'⟩ := hlast
    obtain ⟨between, rfl, rfl⟩ := StandsAt.exists_between ⟨front, hfront⟩ ⟨front', hfront'⟩ hle
    have hcut : slice? text start (start + byteLength between) = some between := by
      refine slice?_eq_some_iff.mpr ⟨front, rest', ?_, hfront.2, ?_⟩
      · rw [hfront.1, List.append_assoc]
      · rw [byteLength_append, hfront.2]
    rw [hcut] at hpiece
    cases hpiece

end

/-- The byte belongs to a script or style of the file that is not commented out. -/
def InBlock (source : List Char) (n : Nat) : Prop :=
  ∃ b, (b ∈ blocks "script".toList source ∨ b ∈ blocks "style".toList source) ∧
    (∀ r ∈ htmlComments source, r.span.has b.span.start = false) ∧ b.span.has n

theorem any_liveSpans_iff_inBlock {source : List Char} {n : Nat} :
    (liveSpans source).any (·.has n) ↔ InBlock source n := by
  simp only [liveSpans, List.any_map, List.any_eq_true, List.mem_append, mem_liveBlocks]
  constructor
  · rintro ⟨b, ⟨hb, hout⟩ | ⟨hb, hout⟩, hn⟩
    · exact ⟨b, .inl hb, hout, hn⟩
    · exact ⟨b, .inr hb, hout, hn⟩
  · rintro ⟨b, hb | hb, hout, hn⟩
    · exact ⟨b, .inl ⟨hb, hout⟩, hn⟩
    · exact ⟨b, .inr ⟨hb, hout⟩, hn⟩

theorem PartKind.StandsIn.whole {α : Type} {kind : PartKind α} {a : α} {text : List Char}
    (h : kind.StandsIn a text) : Whole text (kind.span a) := by
  obtain ⟨_, ⟨before, rfl, hplace⟩, ha⟩ := h
  obtain ⟨body, rest, rfl, _, hspan, _⟩ := kind.delimited ha
  refine ⟨⟨before, body ++ rest, rfl, hplace⟩, before ++ body, rest, (List.append_assoc ..).symm, ?_⟩
  rw [byteLength_append, hplace, hspan]

theorem whole_of_mem_liveSpans {source : List Char} {s : Span} (hs : s ∈ liveSpans source) :
    Whole source s := by
  obtain ⟨b, hb, rfl⟩ := List.mem_map.mp hs
  rcases List.mem_append.mp hb with hb | hb
  · exact ((leftmost_scripts source).sound b (mem_liveBlocks.mp hb).1).whole
  · exact ((leftmost_styles source).sound b (mem_liveBlocks.mp hb).1).whole

/-- The markup has the layout of the file. -/
structure KeepsLayout (source markup : List Char) : Prop where
  length : (bytes markup).length = (bytes source).length
  /-- With its blocks overwritten, one byte after another, the file is valid UTF-8, and spells the markup. -/
  decoded : String.fromUTF8? (blankBytes (liveSpans source) (bytes source)).toByteArray =
    some (String.ofList markup)
  lines : ∀ n : Nat, (bytes markup)[n]? = some '\n'.toUInt8 ↔ (bytes source)[n]? = some '\n'.toUInt8
  inside : ∀ (n : Nat) (b : UInt8), (bytes markup)[n]? = some b → InBlock source n →
    b = ' '.toUInt8 ∨ b = '\n'.toUInt8
  outside : ∀ n : Nat, ¬ InBlock source n → (bytes markup)[n]? = (bytes source)[n]?
  /-- A piece that no block touches is the same text at the same place. -/
  pieces : ∀ start stop, (∀ s ∈ liveSpans source, stop ≤ s.start ∨ s.stop ≤ start) →
    slice? markup start stop = slice? source start stop

/-- Every component keeps the layout of its file: no byte moves, none is lost in decoding, and only the blocks
that are not commented out turn into spaces. -/
theorem keepsLayout_of_parse {source : List Char} {path : Option String} {c : Component}
    (h : parse source path = .ok c) : KeepsLayout source c.markup := by
  have hwhole : ∀ s ∈ liveSpans source, Whole source s := fun s hs => whole_of_mem_liveSpans hs
  have hmarkup := (madeOf_of_parse h).markup
  have hbytes : bytes c.markup = blankBytes (liveSpans source) (bytes source) := by
    rw [hmarkup, bytes_blankOut hwhole]
  have hbyte (n : Nat) : (bytes c.markup)[n]? = (bytes source)[n]?.map fun b =>
      if (liveSpans source).any (·.has n) then blankByte b else b := by
    rw [hbytes, getElem?_blankBytes]
  refine ⟨?_, ?_, ?_, ?_, ?_, ?_⟩
  · rw [length_bytes, length_bytes, hmarkup, byteLength_blankOut]
  · rw [← hbytes, fromUTF8?_bytes]
  · intro n
    rw [hbyte, Option.map_eq_some_iff]
    constructor
    · rintro ⟨b, hb, hline⟩
      split_ifs at hline
      · rw [hb, blankByte_eq_line_iff.mp hline]
      · rw [hb, hline]
    · intro hline
      refine ⟨_, hline, ?_⟩
      rw [blankByte_eq_line_iff.mpr rfl, ite_self]
  · intro n b hb hin
    rw [hbyte] at hb
    obtain ⟨a, _, rfl⟩ := Option.map_eq_some_iff.mp hb
    rw [if_pos (any_liveSpans_iff_inBlock.mpr hin), blankByte]
    split_ifs with ha
    · exact .inr ha
    · exact .inl rfl
  · intro n hout
    rw [hbyte]
    simp [mt any_liveSpans_iff_inBlock.mp hout]
  · intro start stop hout
    rw [hmarkup, slice?_blankOut hwhole hout]

/-- A style that opens in the string of a script and ends behind it, among longer characters. -/
def overlapping : List Char :=
  "é<script>'<style>é'</script>é\n</style>é".toList

theorem markup_overlapping : (parse overlapping none).toOption.map Component.markup =
    some ("é".toList ++ List.replicate 30 ' ' ++ '\n' :: List.replicate 8 ' ' ++ "é".toList) := by
  decide +kernel

/-- Both blocks are blanked out, and the letters at the ends stay. -/
theorem keepsLayout_of_parse_overlapping : ∃ c, parse overlapping none = .ok c ∧
    KeepsLayout overlapping c.markup ∧ slice? c.markup 41 43 = some "é".toList := by
  obtain ⟨c, hc, hmarkup⟩ := Option.map_eq_some_iff.mp markup_overlapping
  rw [toOption_eq_some_iff] at hc
  refine ⟨c, hc, keepsLayout_of_parse hc, ?_⟩
  rw [hmarkup]
  decide

end ComponentDoc.Component
