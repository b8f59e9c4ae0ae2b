import ComponentDoc.Proofs.Component.Leftmost

/-!
The delimiters of blocks and comments. An opening tag ends at its first `>`, a block at its first closing tag
and a comment at its first closing mark, so that each tells its own end.
-/
namespace ComponentDoc.Component

open Text

variable {name : List Char}

/-- What may stand between the name and the end of an opening tag: nothing, or something after a blank. -/
def IsAttributes (attributes : List Char) : Prop :=
  '>' ∉ attributes ∧ ∀ c ∈ attributes.head?, isBlank c

/-- A closing tag of a name, which may have blanks before its end. -/
def IsClosing (name tag : List Char) : Prop :=
  ∃ blanks, (∀ c ∈ blanks, isBlank c) ∧ tag = '<' :: '/' :: (name ++ blanks ++ ['>'])

theorem openTag?_eq_some_iff {cs attributes rest : List Char} :
    openTag? name cs = some (attributes, rest) ↔
      IsAttributes attributes ∧ cs = '<' :: (name ++ attributes ++ '>' :: rest) := by
  unfold openTag? IsAttributes
  constructor
  · intro h
    obtain ⟨tail, ha, ht⟩ := Option.bind_eq_some_iff.mp h
    obtain rfl := after?_eq_some_iff.mp ha
    split at ht
    · obtain ⟨rfl, rfl⟩ := Prod.mk.inj (Option.some.inj ht)
      simp
    · next c more hc =>
      split_ifs at ht with hblank
      obtain ⟨hgt, heq⟩ := cutAt?_eq_some_iff.mp ht
      refine ⟨⟨hgt, ?_⟩, by simp [heq]⟩
      cases attributes with
      | nil => exact absurd (List.cons.inj heq).1 hc
      | cons d attributes =>
        obtain rfl : c = d := (List.cons.inj heq).1
        simpa using hblank
    · cases ht
  · rintro ⟨⟨hgt, hblank⟩, rfl⟩
    have ha : after? ('<' :: name) ('<' :: (name ++ attributes ++ '>' :: rest)) =
        some (attributes ++ '>' :: rest) := by
      rw [after?_eq_some_iff]
      simp
    rw [ha, Option.bind_eq_bind, Option.bind_some]
    cases attributes with
    | nil => rfl
    | cons c attributes =>
      have hc : c ≠ '>' := fun h => hgt (h ▸ List.mem_cons_self)
      have hcut : cutAt? '>' (c :: attributes ++ '>' :: rest) = some (c :: attributes, rest) :=
        cutAt?_eq_some_iff.mpr ⟨hgt, rfl⟩
      rw [List.cons_append] at hcut ⊢
      split
      · next heq => exact absurd (List.cons.inj heq).1 hc
      · next d more _ heq =>
        obtain ⟨rfl, rfl⟩ := List.cons.inj heq
        rw [if_pos (hblank c rfl), hcut]
      · next heq => cases heq

theorem closeTag?_eq_some_iff {cs tag rest : List Char} :
    closeTag? name cs = some (tag, rest) ↔ IsClosing name tag ∧ cs = tag ++ rest := by
  unfold closeTag? IsClosing
  constructor
  · intro h
    obtain ⟨tail, ha, ht⟩ := Option.bind_eq_some_iff.mp h
    obtain rfl := after?_eq_some_iff.mp ha
    have hsplit := List.takeWhile_append_dropWhile (p := isBlank) (l := tail)
    split at ht
    · next r hr =>
      obtain ⟨rfl, rfl⟩ := Prod.mk.inj (Option.some.inj ht)
      rw [hr] at hsplit
      refine ⟨⟨tail.takeWhile isBlank, fun c hc => List.mem_takeWhile_imp hc, rfl⟩, ?_⟩
      nth_rewrite 1 [← hsplit]
      simp
    · cases ht
  · rintro ⟨⟨blanks, hblanks, rfl⟩, rfl⟩
    have ha : after? ('<' :: '/' :: name) ('<' :: '/' :: (name ++ blanks ++ ['>']) ++ rest) =
        some (blanks ++ '>' :: rest) := by
      rw [after?_eq_some_iff]
      simp
    have hgt : isBlank '>' = false := by decide
    have hdrop : (blanks ++ '>' :: rest).dropWhile isBlank = '>' :: rest := by
      rw [List.dropWhile_append_of_pos hblanks, List.dropWhile_cons_of_neg (by simp [hgt])]
    have htake : (blanks ++ '>' :: rest).takeWhile isBlank = blanks := by
      rw [List.takeWhile_append_of_pos hblanks, List.takeWhile_cons_of_neg (by simp [hgt]), List.append_nil]
    rw [ha, Option.bind_eq_bind, Option.bind_some]
    simp only [hdrop, htake]

/-- A closing tag has one `>`, its last character. -/
theorem IsClosing.exists_concat {tag : List Char} (h : IsClosing name tag) (hname : '>' ∉ name) :
    ∃ front, tag = front ++ ['>'] ∧ '>' ∉ front := by
  obtain ⟨blanks, hblanks, rfl⟩ := h
  refine ⟨'<' :: '/' :: (name ++ blanks), by simp, ?_⟩
  have hgt : '>' ∉ blanks := fun hm => absurd (hblanks _ hm) (by decide)
  simp [hname, hgt]

theorem of_cutAtClose? {cs content tag rest : List Char}
    (h : cutAtClose? name cs = some (content, tag, rest)) :
    IsClosing name tag ∧ cs = content ++ tag ++ rest := by
  induction cs generalizing content with
  | nil => cases h
  | cons c cs ih =>
    rw [cutAtClose?] at h
    cases hclose : closeTag? name (c :: cs) with
    | some p =>
      obtain ⟨t, r⟩ := p
      rw [hclose] at h
      obtain ⟨rfl, rfl, rfl⟩ : [] = content ∧ t = tag ∧ r = rest := by simpa using h
      exact closeTag?_eq_some_iff.mp hclose
    | none =>
      rw [hclose] at h
      obtain ⟨⟨w, t, r⟩, hw, hp⟩ := Option.map_eq_some_iff.mp h
      obtain ⟨rfl, rfl, rfl⟩ : c :: w = content ∧ t = tag ∧ r = rest := by simpa using hp
      obtain ⟨htag, rfl⟩ := ih hw
      exact ⟨htag, rfl⟩

/-- A block that has a closing tag ends. -/
theorem exists_cutAtClose? {tag : List Char} (htag : IsClosing name tag) (before rest : List Char) :
    ∃ cut, cutAtClose? name (before ++ tag ++ rest) = some cut := by
  induction before with
  | nil =>
    have hclose : closeTag? name (tag ++ rest) = some (tag, rest) := closeTag?_eq_some_iff.mpr ⟨htag, rfl⟩
    obtain ⟨blanks, _, rfl⟩ := htag
    rw [List.cons_append] at hclose
    rw [List.nil_append, List.cons_append, cutAtClose?, hclose]
    exact ⟨_, rfl⟩
  | cons c before ih =>
    obtain ⟨cut, hcut⟩ := ih
    rw [List.cons_append, List.cons_append, cutAtClose?]
    cases closeTag? name (c :: (before ++ tag ++ rest)) with
    | some p => exact ⟨_, rfl⟩
    | none => exact ⟨_, by rw [hcut]; rfl⟩

/-- A tag before the end of another does not reach over that end. -/
theorem closeTag?_append {front rest : List Char} (hname : '>' ∉ name)
    (h : closeTag? name (front ++ '>' :: rest) = none) (rest' : List Char) :
    closeTag? name (front ++ '>' :: rest') = none := by
  by_contra hne
  obtain ⟨⟨tag, r⟩, hsome⟩ := Option.ne_none_iff_exists'.mp hne
  obtain ⟨htag, heq⟩ := closeTag?_eq_some_iff.mp hsome
  obtain ⟨start, rfl, hstart⟩ := htag.exists_concat hname
  have hprefix : ∃ more, front ++ ['>'] = start ++ ['>'] ++ more := by
    rw [List.append_assoc, List.singleton_append] at heq
    rcases List.append_eq_append_iff.mp heq with ⟨as, rfl, has⟩ | ⟨bs, rfl, hbs⟩
    · cases as with
      | nil => exact ⟨[], by simp⟩
      | cons d as =>
        obtain ⟨rfl, _⟩ := List.cons.inj has
        exact absurd (List.mem_append_right front List.mem_cons_self) hstart
    · cases bs with
      | nil => exact ⟨[], by simp⟩
      | cons d bs =>
        obtain ⟨rfl, _⟩ := List.cons.inj hbs
        exact ⟨bs ++ ['>'], by simp⟩
  obtain ⟨more, hmore⟩ := hprefix
  have hagain : closeTag? name (front ++ '>' :: rest) = some (start ++ ['>'], more ++ rest) := by
    refine closeTag?_eq_some_iff.mpr ⟨htag, ?_⟩
    rw [← List.append_assoc, ← hmore]
    simp
  rw [h] at hagain
  cases hagain

/-- A block ends at the same place, whatever comes after its closing tag. -/
theorem cutAtClose?_append {content tag rest : List Char} (hname : '>' ∉ name)
    (h : cutAtClose? name (content ++ tag ++ rest) = some (content, tag, rest)) (rest' : List Char) :
    cutAtClose? name (content ++ tag ++ rest') = some (content, tag, rest') := by
  have htag := (of_cutAtClose? h).1
  obtain ⟨front, hfront, _⟩ := htag.exists_concat hname
  induction content with
  | nil =>
    have hclose : closeTag? name (tag ++ rest') = some (tag, rest') := closeTag?_eq_some_iff.mpr ⟨htag, rfl⟩
    obtain ⟨blanks, _, rfl⟩ := htag
    rw [List.cons_append] at hclose
    rw [List.nil_append, List.cons_append, cutAtClose?, hclose]
  | cons c content ih =>
    rw [List.cons_append, List.cons_append, cutAtClose?] at h ⊢
    cases hclose : closeTag? name (c :: (content ++ tag ++ rest)) with
    | some p =>
      rw [hclose] at h
      cases h
    | none =>
      have hclose' : closeTag? name (c :: (content ++ tag ++ rest')) = none := by
        have hregroup (r : List Char) :
            c :: (content ++ tag ++ r) = (c :: (content ++ front)) ++ '>' :: r := by
          simp [hfront]
        rw [hregroup] at hclose ⊢
        exact closeTag?_append hname hclose rest'
      rw [hclose] at h
      obtain ⟨⟨w, t, r⟩, hw, hp⟩ := Option.map_eq_some_iff.mp h
      obtain ⟨rfl, rfl, rfl⟩ : w = content ∧ t = tag ∧ r = rest := by simpa using hp
      rw [hclose', ih hw]
      rfl

theorem blockAt?_eq_some_iff {cs : List Char} {offset : Nat} {b : Block} :
    blockAt? name cs offset = some b ↔ ∃ tag rest, IsAttributes b.attributes ∧
      cutAtClose? name (b.content ++ tag ++ rest) = some (b.content, tag, rest) ∧
      cs = '<' :: (name ++ b.attributes ++ '>' :: (b.content ++ tag ++ rest)) ∧
      b.contentStart = offset + byteLength ('<' :: (name ++ b.attributes ++ ['>'])) ∧
      b.span = ⟨offset, b.contentStart + byteLength b.content + byteLength tag⟩ := by
  have hlength (attributes rest : List Char) :
      byteLength ('<' :: (name ++ attributes ++ '>' :: rest)) - byteLength rest =
        byteLength ('<' :: (name ++ attributes ++ ['>'])) := by
    have hcs : '<' :: (name ++ attributes ++ '>' :: rest) = '<' :: (name ++ attributes ++ ['>']) ++ rest := by
      simp
    rw [hcs, byteLength_append]
    omega
  unfold blockAt?
  constructor
  · intro h
    obtain ⟨⟨attributes, tail⟩, ho, h⟩ := Option.bind_eq_some_iff.mp h
    obtain ⟨⟨content, tag, rest⟩, hcut, h⟩ := Option.bind_eq_some_iff.mp h
    obtain ⟨hattributes, rfl⟩ := openTag?_eq_some_iff.mp ho
    obtain ⟨_, rfl⟩ := of_cutAtClose? hcut
    obtain rfl := Option.some.inj h
    refine ⟨tag, rest, hattributes, hcut, rfl, ?_, rfl⟩
    simp only [hlength]
  · rintro ⟨tag, rest, hattributes, hcut, rfl, hstart, hspan⟩
    have ho : openTag? name _ = some (b.attributes, b.content ++ tag ++ rest) :=
      openTag?_eq_some_iff.mpr ⟨hattributes, rfl⟩
    rw [ho]
    simp only [Option.bind_eq_bind, Option.bind_some, hcut, hlength, ← hstart]
    rw [← hspan]
    rfl

theorem exists_blockAt?_iff {cs : List Char} {offset : Nat} : (∃ b, blockAt? name cs offset = some b) ↔
    ∃ attributes content tag rest, IsAttributes attributes ∧ IsClosing name tag ∧
      cs = '<' :: (name ++ attributes ++ '>' :: (content ++ tag ++ rest)) := by
  constructor
  · rintro ⟨b, hb⟩
    obtain ⟨tag, rest, hattributes, hcut, hcs, _⟩ := blockAt?_eq_some_iff.mp hb
    exact ⟨b.attributes, b.content, tag, rest, hattributes, (of_cutAtClose? hcut).1, hcs⟩
  · rintro ⟨attributes, content, tag, rest, hattributes, htag, rfl⟩
    obtain ⟨cut, hcut⟩ := exists_cutAtClose? htag content rest
    have ho : openTag? name _ = some (attributes, content ++ tag ++ rest) :=
      openTag?_eq_some_iff.mpr ⟨hattributes, rfl⟩
    unfold blockAt?
    rw [ho]
    simp only [Option.bind_eq_bind, Option.bind_some, hcut]
    exact ⟨_, rfl⟩

theorem htmlCommentAt?_eq_some_iff {cs : List Char} {offset : Nat} {c : Comment.Source} :
    htmlCommentAt? cs offset = some c ↔ ∃ rest,
      cutAtMark? "-->".toList (c.text ++ "-->".toList ++ rest) = some (c.text, rest) ∧
      cs = "<!--".toList ++ (c.text ++ "-->".toList ++ rest) ∧
      c = ⟨.html, ⟨offset, offset + 7 + byteLength c.text⟩, c.text⟩ := by
  unfold htmlCommentAt?
  constructor
  · intro h
    obtain ⟨tail, ha, h⟩ := Option.bind_eq_some_iff.mp h
    obtain ⟨⟨text, rest⟩, hcut, h⟩ := Option.bind_eq_some_iff.mp h
    obtain rfl := Option.some.inj h
    obtain rfl := eq_append_of_cutAtMark? hcut
    exact ⟨rest, hcut, after?_eq_some_iff.mp ha, rfl⟩
  · rintro ⟨rest, hcut, rfl, hc⟩
    rw [after?_eq_some_iff.mpr rfl]
    simp only [Option.bind_eq_bind, Option.bind_some, hcut]
    exact congrArg some hc.symm

theorem exists_htmlCommentAt?_iff {cs : List Char} {offset : Nat} :
    (∃ c, htmlCommentAt? cs offset = some c) ↔
      ∃ text rest, cs = "<!--".toList ++ (text ++ "-->".toList ++ rest) := by
  constructor
  · rintro ⟨c, hc⟩
    obtain ⟨rest, _, hcs, _⟩ := htmlCommentAt?_eq_some_iff.mp hc
    exact ⟨c.text, rest, hcs⟩
  · rintro ⟨text, rest, rfl⟩
    have hmark : hasMark "-->".toList (text ++ "-->".toList ++ rest) := hasMark_of_isInfix ⟨text, rest, rfl⟩
    obtain ⟨⟨t, r⟩, hcut⟩ := Option.isSome_iff_exists.mp hmark
    unfold htmlCommentAt?
    rw [after?_eq_some_iff.mpr rfl]
    simp only [Option.bind_eq_bind, Option.bind_some, hcut]
    exact ⟨_, rfl⟩

/-- Blocks of a name, which does not end a tag itself. -/
def blockKind (name : List Char) (hname : '>' ∉ name) : PartKind Block where
  at? := blockAt? name
  span := Block.span
  delimited := by
    intro cs offset b h
    obtain ⟨tag, rest, hattributes, hcut, rfl, hstart, hspan⟩ := blockAt?_eq_some_iff.mp h
    refine ⟨'<' :: (name ++ b.attributes ++ '>' :: (b.content ++ tag)), rest, by simp, by simp, ?_, ?_⟩
    · rw [hspan, hstart]
      simp only [byteLength_cons, byteLength_append, byteLength_nil, Span.mk.injEq, true_and]
      omega
    · intro rest'
      exact blockAt?_eq_some_iff.mpr
        ⟨tag, rest', hattributes, cutAtClose?_append hname hcut rest', by simp, hstart, hspan⟩

def commentKind : PartKind Comment.Source where
  at? := htmlCommentAt?
  span := Comment.Source.span
  delimited := by
    intro cs offset c h
    obtain ⟨rest, hcut, rfl, hc⟩ := htmlCommentAt?_eq_some_iff.mp h
    refine ⟨"<!--".toList ++ c.text ++ "-->".toList, rest, by simp, by simp, ?_, ?_⟩
    · rw [hc]
      have hopen : byteLength "<!--".toList = 4 := by decide
      have hclose : byteLength "-->".toList = 3 := by decide
      simp only [byteLength_append, hopen, hclose, Span.mk.injEq, true_and]
      omega
    · intro rest'
      exact htmlCommentAt?_eq_some_iff.mpr
        ⟨rest', cutAtMark?_append (by simp) hcut rest', by simp, hc⟩

theorem leftmost_blocks (hname : '>' ∉ name) (text : List Char) :
    Leftmost Block.span (fun b => (blockKind name hname).StandsIn b text) (blocks name text) := by
  have h := (blockKind name hname).leftmost_found text
  rwa [PartKind.found, PartKind.scan, blockKind, ← blocks_eq_scanFrom] at h

theorem leftmost_comments (text : List Char) :
    Leftmost Comment.Source.span (fun r => commentKind.StandsIn r text) (htmlComments text) := by
  have h := commentKind.leftmost_found text
  rwa [PartKind.found, PartKind.scan, commentKind, ← htmlComments_eq_scanFrom] at h

end ComponentDoc.Component
