import ComponentDoc.Extract
import ComponentDoc.Proofs.Text.Bytes

namespace ComponentDoc

open Text

/-- The characters before an offset, counted. -/
def charsBefore? (source : List Char) (offset : Nat) : Option Nat :=
  (cutBytes? offset source).map fun p => p.1.length

theorem charsBefore?_byteLength (before after : List Char) :
    charsBefore? (before ++ after) (byteLength before) = some before.length := by
  rw [charsBefore?, cutBytes?_byteLength]
  rfl

/-- Where every character is one byte, every offset in the text is on a boundary. -/
theorem onBoundary_of_isAscii {source : List Char} (ha : isAscii source) {offset : Nat}
    (hin : offset ≤ byteLength source) : OnBoundary source offset := by
  have hlength := isAscii_iff_byteLength.mp ha
  have hfront : isAscii (source.take offset) := by
    rw [← source.take_append_drop offset, isAscii_append] at ha
    exact ha.1
  refine ⟨source.take offset, source.drop offset, (source.take_append_drop offset).symm, ?_⟩
  rw [isAscii_iff_byteLength.mp hfront, List.length_take]
  omega

/-- Two boundaries in order cut a text in three. -/
theorem exists_between_boundaries {source : List Char} {start stop : Nat} (hstart : OnBoundary source start)
    (hstop : OnBoundary source stop) (hle : start ≤ stop) :
    ∃ before inside after, source = before ++ inside ++ after ∧ byteLength before = start ∧
      byteLength (before ++ inside) = stop := by
  obtain ⟨before, rest, rfl, rfl⟩ := hstart
  obtain ⟨before', after, hsource, hbefore'⟩ := hstop
  have hrest : StandsAt (before ++ rest) (byteLength before) rest := ⟨before, rfl, rfl⟩
  have hafter : StandsAt (before ++ rest) stop after := ⟨before', hsource, hbefore'⟩
  obtain ⟨inside, rfl, hlength⟩ := hrest.exists_between hafter hle
  exact ⟨before, inside, after, (List.append_assoc ..).symm, rfl, by rw [byteLength_append, hlength]⟩

/-- The characters of a location are the text between two bytes. -/
structure Location.Covers (location : Location) (source : List Char) (span : Span) : Prop where
  ordered : location.start ≤ location.stop
  inside : location.stop ≤ source.length
  text_eq : slice? source span.start span.stop =
    some ((source.take location.stop).drop location.start)
  bytes_eq : bytes ((source.take location.stop).drop location.start) =
    ((bytes source).take span.stop).drop span.start

theorem covers_locate {source : List Char} {span : Span} (hstart : OnBoundary source span.start)
    (hstop : OnBoundary source span.stop) (hle : span.start ≤ span.stop) :
    (locate source span).Covers source span := by
  obtain ⟨start, stop⟩ := span
  obtain ⟨before, inside, after, rfl, rfl, rfl⟩ := exists_between_boundaries hstart hstop hle
  have hlocate : locate (before ++ inside ++ after) ⟨byteLength before, byteLength (before ++ inside)⟩ =
      ⟨before.length, (before ++ inside).length⟩ := by
    have hfirst := charOffset_byteLength before (inside ++ after)
    rw [← List.append_assoc] at hfirst
    rw [locate, hfirst, charOffset_byteLength]
  have htext : ((before ++ inside ++ after).take (before ++ inside).length).drop before.length = inside := by
    rw [List.take_left, List.drop_left]
  rw [hlocate]
  refine ⟨by simp, by simp, ?_, ?_⟩
  · rw [htext]
    exact slice?_eq_some_iff.mpr ⟨before, after, rfl, rfl, rfl⟩
  · rw [htext]
    simp only [bytes_append, ← length_bytes]
    rw [List.take_left, List.drop_left]

/-- Of two boundaries the one with fewer bytes before it has fewer characters before it. -/
theorem charOffset_strictMonoOn (source : List Char) :
    StrictMonoOn (charOffset source) {offset | OnBoundary source offset} := by
  intro start hstart stop hstop hlt
  obtain ⟨before, inside, after, rfl, rfl, rfl⟩ := exists_between_boundaries hstart hstop hlt.le
  have hfirst := charOffset_byteLength before (inside ++ after)
  rw [← List.append_assoc] at hfirst
  rw [hfirst, charOffset_byteLength, List.length_append]
  have hpos : 0 < inside.length := by
    apply List.length_pos_of_ne_nil
    rintro rfl
    simp at hlt
  omega

theorem charsBefore?_of_isAscii {source : List Char} (ha : isAscii source) {offset : Nat}
    (hin : offset ≤ byteLength source) : charsBefore? source offset = some offset := by
  obtain ⟨before, after, rfl, rfl⟩ := onBoundary_of_isAscii ha hin
  rw [charsBefore?_byteLength, isAscii_iff_byteLength.mp (isAscii_append.mp ha).1]

/-- If places are asked for, a range between characters is located by the characters with the same text. Places
keep their order, and in a text of single bytes the number told is that of the characters counted. -/
theorem Options.locate_covers_range (c : Component) {options : Options} (hon : options.withLocations = true) :
    (∀ span : Span, OnBoundary c.source span.start → OnBoundary c.source span.stop → span.start ≤ span.stop →
      ∃ location, options.locate c span = some location ∧ location.Covers c.source span) ∧
    StrictMonoOn (charOffset c.source) {offset | OnBoundary c.source offset} ∧
    (isAscii c.source → ∀ offset ≤ byteLength c.source,
      charsBefore? c.source offset = some (charOffset c.source offset)) := by
  refine ⟨fun span hstart hstop hle => ?_, charOffset_strictMonoOn c.source, fun ha offset hin => ?_⟩
  · exact ⟨ComponentDoc.locate c.source span, if_pos hon, covers_locate hstart hstop hle⟩
  · have htold : charOffset c.source offset = offset := if_pos ha
    rw [htold, charsBefore?_of_isAscii ha hin]

/-- The component that is nothing but the text `é=a` of four bytes. -/
def accentedText : Component :=
  { name := none, source := ['é', '=', 'a'], markup := ['é', '=', 'a'], scripts := [], markupComments := [] }

/-- The `a` behind an accented letter is one byte further on than it is characters. -/
theorem Options.locate_covers_range_accentedText :
    OnBoundary accentedText.source 3 ∧ OnBoundary accentedText.source 4 ∧
    ({ withLocations := true } : Options).locate accentedText ⟨3, 4⟩ = some ⟨2, 3⟩ ∧
    (⟨2, 3⟩ : Location).Covers accentedText.source ⟨3, 4⟩ := by
  have hstart : OnBoundary accentedText.source 3 := ⟨['é', '='], ['a'], rfl, rfl⟩
  have hstop : OnBoundary accentedText.source 4 := ⟨['é', '=', 'a'], [], rfl, rfl⟩
  have hlocate : ({ withLocations := true } : Options).locate accentedText ⟨3, 4⟩ = some ⟨2, 3⟩ := rfl
  obtain ⟨location, hlocation, hcovers⟩ :=
    (locate_covers_range accentedText (rfl : ({ withLocations := true } : Options).withLocations = true)).1
      ⟨3, 4⟩ hstart hstop (by decide)
  obtain rfl : ⟨2, 3⟩ = location := Option.some.inj (hlocate.symm.trans hlocation)
  exact ⟨hstart, hstop, hlocate, hcovers⟩

end ComponentDoc
