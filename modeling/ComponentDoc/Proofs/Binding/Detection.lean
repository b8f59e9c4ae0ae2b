import ComponentDoc.Binding.Dialect
import ComponentDoc.Proofs.Component.Parts
import ComponentDoc.Proofs.Text.Bytes

/-!
What chooses the dialect. Double braces in the markup count, whether they stand in a comment or not, and they
never stand on both sides of the edge of a comment. Files that differ in their comments alone are so of the
same dialect, unless the braces that decide are in the comments.
-/
namespace ComponentDoc

open Text

namespace Component

/-- Double braces start outside of the comments of the markup. -/
def ShowsBraces (c : Component) : Prop :=
  ∃ place rest, StandsAt c.markup place ('\x7b' :: '\x7b' :: rest) ∧
    (c.markupComments.map (·.span)).any (·.has place) = false

/-- A comment of the markup has double braces. -/
def HidesBraces (c : Component) : Prop :=
  ∃ r ∈ c.markupComments, hasMark ['\x7b', '\x7b'] r.text

/-- Two texts have the same bytes outside of the spans. -/
def AgreeOutside (spans : List Span) (a b : List Char) : Prop :=
  ∀ n, spans.any (·.has n) = false → (bytes a)[n]? = (bytes b)[n]?

theorem AgreeOutside.symm {spans : List Span} {a b : List Char} (h : AgreeOutside spans a b) :
    AgreeOutside spans b a :=
  fun n hn => (h n hn).symm

/-- Braces that start in a comment are in its text. -/
theorem hasMark_of_between {text tail between rest : List Char}
    (h : "<!--".toList ++ (text ++ "-->".toList ++ tail) = between ++ (['\x7b', '\x7b'] ++ rest))
    (hlt : byteLength between < 7 + byteLength text) : hasMark ['\x7b', '\x7b'] text := by
  -- The braces are behind the opening mark, and behind the text they would be behind the whole comment.
  have hopen : ['<', '!', '-'] ++ '-' :: (text ++ "-->".toList ++ tail) =
      between ++ (['\x7b', '\x7b'] ++ rest) := h
  rcases before_or_behind (by decide) hopen with ⟨more, hmore⟩ | ⟨within, rfl⟩
  · have hmem : '\x7b' ∈ ['<', '!', '-'] := by simp [hmore]
    exact absurd hmem (by decide)
  have htext : text ++ '-' :: ('-' :: '>' :: tail) = within ++ (['\x7b', '\x7b'] ++ rest) := by
    simpa using hopen
  rcases before_or_behind (by decide) htext with ⟨more, rfl⟩ | ⟨behind, rfl⟩
  · exact hasMark_of_isInfix ⟨within, more, rfl⟩
  have hclose : ['-'] ++ '>' :: tail = behind ++ (['\x7b', '\x7b'] ++ rest) := by
    simpa using htext
  rcases before_or_behind (by decide) hclose with ⟨more, hmore⟩ | ⟨more, rfl⟩
  · have hmem : '\x7b' ∈ ['-'] := by simp [hmore]
    exact absurd hmem (by decide)
  · have hsizes : '<'.utf8Size = 1 ∧ '!'.utf8Size = 1 ∧ '-'.utf8Size = 1 ∧ '>'.utf8Size = 1 := by decide
    simp only [byteLength_append, byteLength_cons, byteLength_nil, hsizes] at hlt
    omega

theorem standsAt_of_mem_htmlComments {text : List Char} {r : Comment.Source} (hr : r ∈ htmlComments text) :
    ∃ tail, StandsAt text r.span.start ("<!--".toList ++ (r.text ++ "-->".toList ++ tail)) ∧
      r.span.stop = r.span.start + 7 + byteLength r.text := by
  obtain ⟨_, hrest, hat⟩ := (leftmost_comments text).sound r hr
  obtain ⟨tail, _, rfl, heq⟩ := htmlCommentAt?_eq_some_iff.mp hat
  exact ⟨tail, hrest, congrArg (·.span.stop) heq⟩

section

variable {c d : Component} (hc : c.markupComments = htmlComments c.markup)
include hc

theorem hasMark_markup_iff : hasMark ['\x7b', '\x7b'] c.markup ↔ c.ShowsBraces ∨ c.HidesBraces := by
  constructor
  · intro h
    obtain ⟨place, rest, hplace⟩ := hasMark_iff_standsAt.mp h
    by_cases hout : (c.markupComments.map (·.span)).any (·.has place) = true
    · obtain ⟨_, hm, hhas⟩ := List.any_eq_true.mp hout
      obtain ⟨r, hr, rfl⟩ := List.mem_map.mp hm
      obtain ⟨tail, hcomment, hstop⟩ := standsAt_of_mem_htmlComments (hc ▸ hr)
      obtain ⟨hle, hlt⟩ := Span.has_iff.mp hhas
      obtain ⟨between, heq, hbetween⟩ := hcomment.exists_between hplace hle
      exact .inr ⟨r, hr, hasMark_of_between heq (by omega)⟩
    · exact .inl ⟨place, rest, hplace, Bool.eq_false_iff.mpr hout⟩
  · rintro (⟨place, rest, hplace, _⟩ | ⟨r, hr, htext⟩)
    · exact hasMark_iff_standsAt.mpr ⟨place, rest, hplace⟩
    · obtain ⟨tail, ⟨before, hmarkup, _⟩, _⟩ := standsAt_of_mem_htmlComments (hc ▸ hr)
      refine hasMark_of_isInfix ((hasMark_iff_isInfix.mp htext).trans ?_)
      exact ⟨before ++ "<!--".toList, "-->".toList ++ tail, by simp [hmarkup]⟩

theorem detect_eq_v2_iff :
    Dialect.detect c = .v2 ↔ c.hasDefinition ∨ c.ShowsBraces ∨ c.HidesBraces := by
  rw [← hasMark_markup_iff hc, Dialect.detect, ← Bool.or_eq_true]
  split_ifs with h
  · exact iff_of_true rfl h
  · exact iff_of_false (by decide) h

/-- A comment does not start between two braces. -/
theorem outside_behind_brace {place : Nat} {rest : List Char}
    (hplace : StandsAt c.markup place ('\x7b' :: '\x7b' :: rest))
    (hout : (c.markupComments.map (·.span)).any (·.has place) = false) :
    (c.markupComments.map (·.span)).any (·.has (place + 1)) = false := by
  rw [List.any_eq_false] at hout ⊢
  intro s hs hhas
  have hnot := hout s hs
  obtain ⟨r, hr, rfl⟩ := List.mem_map.mp hs
  obtain ⟨tail, hcomment, _⟩ := standsAt_of_mem_htmlComments (hc ▸ hr)
  have hstart : r.span.start = place + 1 := by
    rw [Span.has_iff] at hhas hnot
    omega
  rw [hstart] at hcomment
  have hbrace : StandsAt c.markup (place + 1) ('\x7b' :: rest) := hplace.tail
  cases hcomment.eq hbrace

theorem ShowsBraces.of_agreeOutside (hspans : c.markupComments.map (·.span) = d.markupComments.map (·.span))
    (hagree : AgreeOutside (c.markupComments.map (·.span)) c.markup d.markup) (h : c.ShowsBraces) :
    d.ShowsBraces := by
  have hsize : '\x7b'.utf8Size = 1 := by decide
  obtain ⟨place, rest, hplace, hout⟩ := h
  have hbrace : StandsAt c.markup (place + 1) ('\x7b' :: rest) := hplace.tail
  have hfirst := hagree place hout
  have hsecond := hagree (place + 1) (outside_behind_brace hc hplace hout)
  rw [(getElem?_bytes_eq_some_iff hsize).mpr ⟨_, hplace⟩] at hfirst
  rw [(getElem?_bytes_eq_some_iff hsize).mpr ⟨_, hbrace⟩] at hsecond
  obtain ⟨rest₁, h₁⟩ := (getElem?_bytes_eq_some_iff hsize).mp hfirst.symm
  obtain ⟨rest₂, h₂⟩ := (getElem?_bytes_eq_some_iff hsize).mp hsecond.symm
  have hnext : StandsAt d.markup (place + 1) rest₁ := h₁.tail
  obtain rfl := hnext.eq h₂
  exact ⟨place, rest₂, h₁, hspans ▸ hout⟩

end

end Component

/-- Two files with the same scripts and with comments at the same places, which agree outside of these, are of
the same dialect just when a script has a definition, double braces stand outside of the comments, or both or
neither of them have such braces in a comment. -/
theorem Dialect.detect_eq_iff_of_agreeOutside {source source' : List Char} {path path' : Option String}
    {c d : Component} (hc : Component.parse source path = .ok c) (hd : Component.parse source' path' = .ok d)
    (hscripts : c.scripts = d.scripts)
    (hspans : c.markupComments.map (·.span) = d.markupComments.map (·.span))
    (hagree : Component.AgreeOutside (c.markupComments.map (·.span)) c.markup d.markup) :
    detect c = detect d ↔ c.hasDefinition ∨ c.ShowsBraces ∨ (c.HidesBraces ↔ d.HidesBraces) := by
  have hcc := (Component.madeOf_of_parse hc).markupComments
  have hdd := (Component.madeOf_of_parse hd).markupComments
  have hdefinition : c.hasDefinition = d.hasDefinition := by
    unfold Component.hasDefinition Component.scopes
    rw [hscripts]
  have hshows : c.ShowsBraces ↔ d.ShowsBraces := by
    constructor
    · exact Component.ShowsBraces.of_agreeOutside hcc hspans hagree
    · exact Component.ShowsBraces.of_agreeOutside hdd hspans.symm (hspans ▸ hagree.symm)
  have hversions : detect c = detect d ↔ (detect c = .v2 ↔ detect d = .v2) := by
    cases detect c <;> cases detect d <;> decide
  rw [hversions, Component.detect_eq_v2_iff hcc, Component.detect_eq_v2_iff hdd, ← hdefinition, ← hshows]
  by_cases hdef : c.hasDefinition = true
  · simp [hdef]
  · by_cases hshow : c.ShowsBraces
    · simp [hshow]
    · simp [hdef, hshow]

namespace Component

/-- A file of markup alone, which starts with a comment. -/
def commented (text rest : List Char) : Component where
  name := none
  source := "<!--".toList ++ text ++ "-->".toList ++ rest
  markup := "<!--".toList ++ text ++ "-->".toList ++ rest
  scripts := []
  markupComments := [⟨.html, ⟨0, 7 + byteLength text⟩, text⟩]

theorem agreeOutside_commented {text text' : List Char} (h : byteLength text = byteLength text')
    (rest : List Char) : AgreeOutside ((commented text rest).markupComments.map (·.span))
      (commented text rest).markup (commented text' rest).markup := by
  intro n hn
  have hlength (t : List Char) : (bytes ("<!--".toList ++ t ++ "-->".toList)).length = 7 + byteLength t := by
    have hopen : byteLength "<!--".toList = 4 := by decide
    have hclose : byteLength "-->".toList = 3 := by decide
    rw [length_bytes, byteLength_append, byteLength_append, hopen, hclose]
    omega
  have hout : ¬ Span.has ⟨0, 7 + byteLength text⟩ n := by simpa [commented] using hn
  have hle : 7 + byteLength text ≤ n := not_lt.mp fun hlt => hout (Span.has_iff.mpr ⟨Nat.zero_le n, hlt⟩)
  unfold commented
  rw [bytes_append, bytes_append _ rest, List.getElem?_append_right (by rwa [hlength]),
    List.getElem?_append_right (by rwa [hlength, ← h]), hlength, hlength, h]

def braces : List Char :=
  ['\x7b', '\x7b']

def mustache : List Char :=
  "\x7b\x7bc\x7d\x7d".toList

end Component

open Component

/-- Braces outside of the comments decide, whatever is in them. -/
theorem Dialect.detect_eq_commented_mustache :
    parse (commented braces mustache).source none = .ok (commented braces mustache) ∧
    parse (commented ['a', 'b'] mustache).source none = .ok (commented ['a', 'b'] mustache) ∧
    detect (commented braces mustache) = detect (commented ['a', 'b'] mustache) := by
  have hc : parse (commented braces mustache).source none = .ok (commented braces mustache) := rfl
  have hd : parse (commented ['a', 'b'] mustache).source none = .ok (commented ['a', 'b'] mustache) := rfl
  have hshows : (commented braces mustache).ShowsBraces :=
    ⟨9, "c\x7d\x7d".toList, ⟨"<!--".toList ++ braces ++ "-->".toList, rfl, rfl⟩, rfl⟩
  have hlength : byteLength braces = byteLength ['a', 'b'] := by decide
  have hagree := agreeOutside_commented hlength mustache
  exact ⟨hc, hd, (detect_eq_iff_of_agreeOutside hc hd rfl rfl hagree).mpr (.inr (.inl hshows))⟩

/-- Braces in a comment choose the dialect where there are none outside. -/
theorem Dialect.detect_differs_commented_braces :
    parse (commented braces []).source none = .ok (commented braces []) ∧
    parse (commented ['a', 'b'] []).source none = .ok (commented ['a', 'b'] []) ∧
    (commented braces []).scripts = (commented ['a', 'b'] []).scripts ∧
    (commented braces []).markupComments.map (·.span) =
      (commented ['a', 'b'] []).markupComments.map (·.span) ∧
    AgreeOutside ((commented braces []).markupComments.map (·.span)) (commented braces []).markup
      (commented ['a', 'b'] []).markup ∧
    detect (commented braces []) = .v2 ∧ detect (commented ['a', 'b'] []) = .v3 := by
  have hlength : byteLength braces = byteLength ['a', 'b'] := by decide
  exact ⟨rfl, rfl, rfl, rfl, agreeOutside_commented hlength [], rfl, rfl⟩

end ComponentDoc
