import ComponentDoc.Proofs.Component.Delimiters

namespace ComponentDoc.Component

open Text

section

variable (spans : List Span)

theorem blankOut_append (offset : Nat) (xs ys : List Char) : blankOut spans offset (xs ++ ys) =
    blankOut spans offset xs ++ blankOut spans (offset + byteLength xs) ys := by
  induction xs generalizing offset with
  | nil => rfl
  | cons c xs ih =>
    rw [List.cons_append, blankOut, blankOut, ih, byteLength_cons, ← List.append_assoc, Nat.add_assoc]

theorem byteLength_replicate_space (n : Nat) : byteLength (List.replicate n ' ') = n := by
  have hspace : ' '.utf8Size = 1 := by decide
  induction n with
  | zero => rfl
  | succ n ih =>
    rw [List.replicate_succ, byteLength_cons, ih, hspace]
    omega

/-- No place moves. -/
theorem byteLength_blankOut (offset : Nat) (cs : List Char) :
    byteLength (blankOut spans offset cs) = byteLength cs := by
  induction cs generalizing offset with
  | nil => rfl
  | cons c cs ih =>
    rw [blankOut, byteLength_append, ih, byteLength_cons]
    split_ifs
    · rw [byteLength_replicate_space]
    · rfl

theorem blankOut_eq_nil {offset : Nat} {cs : List Char} (h : blankOut spans offset cs = []) : cs = [] := by
  by_contra hne
  have hpos := byteLength_pos hne
  rw [← byteLength_blankOut spans offset cs, h] at hpos
  exact absurd hpos (by decide)

theorem blankOut_replicate_space (offset n : Nat) :
    blankOut spans offset (List.replicate n ' ') = List.replicate n ' ' := by
  have hspace : ' '.utf8Size = 1 := by decide
  induction n generalizing offset with
  | zero => rfl
  | succ n ih =>
    rw [List.replicate_succ, blankOut, ih, hspace]
    split_ifs <;> rfl

/-- Blanking out in two passes. -/
theorem blankOut_blankOut (spans' : List Span) (offset : Nat) (cs : List Char) :
    blankOut spans' offset (blankOut spans offset cs) = blankOut (spans ++ spans') offset cs := by
  induction cs generalizing offset with
  | nil => rfl
  | cons c cs ih =>
    rw [blankOut, blankOut, List.any_append]
    by_cases hc : (c != '\n' && spans.any (·.has offset)) = true
    · have hc' : (c != '\n' && (spans.any (·.has offset) || spans'.any (·.has offset))) = true := by
        rw [Bool.and_eq_true] at hc ⊢
        exact ⟨hc.1, by rw [hc.2, Bool.true_or]⟩
      rw [if_pos hc, if_pos hc', blankOut_append, blankOut_replicate_space, byteLength_replicate_space, ih]
    · have hc' : (c != '\n' && (spans.any (·.has offset) || spans'.any (·.has offset))) =
          (c != '\n' && spans'.any (·.has offset)) := by
        rw [Bool.and_or_distrib_left, Bool.eq_false_iff.mpr hc, Bool.false_or]
      rw [if_neg hc, List.singleton_append, blankOut, ih, hc']

variable {spans}

/-- What counts is which places are in the spans. -/
theorem blankOut_congr {spans' : List Span}
    (h : ∀ n, spans.any (·.has n) = spans'.any (·.has n)) (offset : Nat) (cs : List Char) :
    blankOut spans offset cs = blankOut spans' offset cs := by
  induction cs generalizing offset with
  | nil => rfl
  | cons c cs ih => rw [blankOut, blankOut, h, ih]

theorem blankOut_cons_of_outside {offset : Nat} (h : spans.any (·.has offset) = false) (c : Char)
    (cs : List Char) : blankOut spans offset (c :: cs) = c :: blankOut spans (offset + c.utf8Size) cs := by
  rw [blankOut, h, Bool.and_false]
  rfl

theorem blankOut_eq_self {offset : Nat} {cs : List Char}
    (h : ∀ n, offset ≤ n → n < offset + byteLength cs → spans.any (·.has n) = false) :
    blankOut spans offset cs = cs := by
  induction cs generalizing offset with
  | nil => rfl
  | cons c cs ih =>
    have hc := c.utf8Size_pos
    have hrest : blankOut spans (offset + c.utf8Size) cs = cs := by
      apply ih
      intro n hle hlt
      apply h n (by omega)
      rw [byteLength_cons]
      omega
    have hfront : spans.any (·.has offset) = false := by
      apply h offset le_rfl
      rw [byteLength_cons]
      omega
    rw [blankOut_cons_of_outside hfront, hrest]

/-- A character other than a space was there before. -/
theorem exists_of_blankOut_eq_cons {offset : Nat} {cs before' rest' : List Char} {d : Char} (hd : d ≠ ' ')
    (h : blankOut spans offset cs = before' ++ d :: rest') : ∃ before rest, cs = before ++ d :: rest ∧
      before' = blankOut spans offset before ∧
      rest' = blankOut spans (offset + byteLength before + d.utf8Size) rest ∧
      (d ≠ '\n' → spans.any (·.has (offset + byteLength before)) = false) := by
  induction cs generalizing offset before' with
  | nil => simp [blankOut] at h
  | cons c cs ih =>
    rw [blankOut] at h
    split_ifs at h with hc
    · -- The spaces of a blanked character come before the one looked for.
      have hspaces : ∃ more, before' = List.replicate c.utf8Size ' ' ++ more ∧
          blankOut spans (offset + c.utf8Size) cs = more ++ d :: rest' := by
        rcases List.append_eq_append_iff.mp h with ⟨more, hbefore, hrest⟩ | ⟨more, hbefore, hrest⟩
        · exact ⟨more, hbefore, hrest⟩
        · cases more with
          | nil => exact ⟨[], by simpa using hbefore.symm, hrest.symm⟩
          | cons e more =>
            obtain ⟨rfl, _⟩ := List.cons.inj hrest
            have hmem : d ∈ List.replicate c.utf8Size ' ' := by
              rw [hbefore]
              exact List.mem_append_right _ List.mem_cons_self
            exact absurd (List.eq_of_mem_replicate hmem) hd
      obtain ⟨more, rfl, hmore⟩ := hspaces
      obtain ⟨before, rest, rfl, rfl, rfl, houtside⟩ := ih hmore
      refine ⟨c :: before, rest, rfl, ?_, ?_, ?_⟩
      · rw [blankOut, if_pos hc]
      · rw [byteLength_cons, Nat.add_assoc offset]
      · rwa [byteLength_cons, ← Nat.add_assoc]
    · cases before' with
      | nil =>
        obtain ⟨rfl, rfl⟩ := List.cons.inj h
        refine ⟨[], cs, rfl, rfl, rfl, fun hline => ?_⟩
        simpa [hline] using hc
      | cons b before' =>
        obtain ⟨rfl, hmore⟩ := List.cons.inj h
        obtain ⟨before, rest, rfl, rfl, rfl, houtside⟩ := ih hmore
        refine ⟨c :: before, rest, rfl, ?_, ?_, ?_⟩
        · rw [blankOut, if_neg hc]
          rfl
        · rw [byteLength_cons, Nat.add_assoc offset]
        · rwa [byteLength_cons, ← Nat.add_assoc]

/-- No character of the mark could come from blanking out or stay in spite of it. -/
def IsPlain (mark : List Char) : Prop :=
  ' ' ∉ mark ∧ '\n' ∉ mark

theorem IsPlain.of_cons {d : Char} {mark : List Char} (h : IsPlain (d :: mark)) :
    d ≠ ' ' ∧ d ≠ '\n' ∧ IsPlain mark := by
  obtain ⟨hspace, hline⟩ := h
  rw [List.mem_cons, not_or] at hspace hline
  exact ⟨Ne.symm hspace.1, Ne.symm hline.1, hspace.2, hline.2⟩

theorem exists_of_blankOut_eq_mark {offset : Nat} {cs mark rest' : List Char} (hmark : IsPlain mark)
    (h : blankOut spans offset cs = mark ++ rest') :
    ∃ rest, cs = mark ++ rest ∧ rest' = blankOut spans (offset + byteLength mark) rest := by
  induction mark generalizing offset cs with
  | nil => exact ⟨cs, rfl, h.symm⟩
  | cons d mark ih =>
    obtain ⟨hspace, _, hmark⟩ := hmark.of_cons
    obtain ⟨before, rest, rfl, hnil, hrest, _⟩ :=
      exists_of_blankOut_eq_cons hspace (h.trans (List.nil_append _).symm)
    obtain rfl := blankOut_eq_nil spans hnil.symm
    obtain ⟨rest, rfl, rfl⟩ := ih hmark hrest.symm
    exact ⟨rest, rfl, by simp [Nat.add_assoc]⟩

/-- A mark further on in a blanked text. -/
theorem exists_of_blankOut_eq_append {offset : Nat} {cs before' mark rest' : List Char}
    (hmark : IsPlain mark) (hne : mark ≠ []) (h : blankOut spans offset cs = before' ++ (mark ++ rest')) :
    ∃ before rest, cs = before ++ (mark ++ rest) ∧ before' = blankOut spans offset before ∧
      rest' = blankOut spans (offset + byteLength before + byteLength mark) rest ∧
      spans.any (·.has (offset + byteLength before)) = false := by
  obtain ⟨d, mark, rfl⟩ := List.exists_cons_of_ne_nil hne
  obtain ⟨hspace, hline, hmark⟩ := hmark.of_cons
  obtain ⟨before, rest, rfl, rfl, hrest, houtside⟩ := exists_of_blankOut_eq_cons hspace h
  obtain ⟨rest, rfl, rfl⟩ := exists_of_blankOut_eq_mark hmark hrest.symm
  exact ⟨before, rest, rfl, rfl, by simp [Nat.add_assoc], houtside hline⟩

/-- The last character of a mark is not blanked out either. -/
theorem exists_last_outside_of_blankOut {offset : Nat} {cs before' mark rest' : List Char}
    (hmark : IsPlain mark) (hne : mark ≠ []) (h : blankOut spans offset cs = before' ++ (mark ++ rest')) :
    ∃ front x, mark = front ++ [x] ∧
      spans.any (·.has (offset + byteLength before' + byteLength front)) = false := by
  obtain ⟨front, x, rfl⟩ := (List.eq_nil_or_concat' mark).resolve_left hne
  have hspace : x ≠ ' ' := fun hx => hmark.1 (by simp [hx])
  have hline : x ≠ '\n' := fun hx => hmark.2 (by simp [hx])
  have hcs : blankOut spans offset cs = (before' ++ front) ++ x :: rest' := by simp [h]
  obtain ⟨before, _, _, hbefore, _, houtside⟩ := exists_of_blankOut_eq_cons hspace hcs
  refine ⟨front, x, rfl, ?_⟩
  rw [Nat.add_assoc, ← byteLength_append, hbefore, byteLength_blankOut]
  exact houtside hline

theorem standsAt_of_blankOut {text mark rest' : List Char} {place : Nat} (hmark : IsPlain mark)
    (hne : mark ≠ []) (h : StandsAt (blankOut spans 0 text) place (mark ++ rest')) :
    ∃ rest, StandsAt text place (mark ++ rest) ∧ rest' = blankOut spans (place + byteLength mark) rest ∧
      spans.any (·.has place) = false := by
  obtain ⟨before', htext, rfl⟩ := h
  obtain ⟨before, rest, rfl, rfl, rfl, houtside⟩ := exists_of_blankOut_eq_append hmark hne htext
  rw [Nat.zero_add] at houtside
  exact ⟨rest, ⟨before, rfl, (byteLength_blankOut spans 0 before).symm⟩,
    by rw [byteLength_blankOut, Nat.zero_add], by rwa [byteLength_blankOut]⟩

/-- A part that nothing of is blanked out. -/
theorem PartKind.StandsIn.blankOut {α : Type} {kind : PartKind α} {a : α} {text : List Char}
    (h : kind.StandsIn a text) (hfree : ∀ n, (kind.span a).has n → spans.any (·.has n) = false) :
    kind.StandsIn a (blankOut spans 0 text) := by
  obtain ⟨_, ⟨before, rfl, hplace⟩, ha⟩ := h
  obtain ⟨body, rest, rfl, _, hspan, hany⟩ := kind.delimited ha
  have hbody : Component.blankOut spans (kind.span a).start body = body := by
    apply blankOut_eq_self
    intro n hle hlt
    apply hfree
    rw [Span.has_iff, hspan]
    exact ⟨hle, hlt⟩
  refine ⟨body ++ Component.blankOut spans ((kind.span a).start + byteLength body) rest,
    ⟨Component.blankOut spans 0 before, ?_, ?_⟩, hany _⟩
  · rw [blankOut_append, blankOut_append, Nat.zero_add, hplace, hbody]
  · rw [byteLength_blankOut, hplace]

/-- Where a comment can be read in the blanked text, one can be read in the text. -/
theorem exists_comment_of_blankOut {c : Comment.Source} {text : List Char}
    (h : commentKind.StandsIn c (blankOut spans 0 text)) :
    ∃ d, commentKind.StandsIn d text ∧ d.span.start = c.span.start ∧
      spans.any (·.has c.span.start) = false := by
  obtain ⟨_, hplace, hc⟩ := h
  obtain ⟨rest', _, rfl, _⟩ := htmlCommentAt?_eq_some_iff.mp hc
  have hopen : IsPlain "<!--".toList := by simp [IsPlain]
  have hclose : IsPlain "-->".toList := by simp [IsPlain]
  obtain ⟨rest, hrest, heq, houtside⟩ := standsAt_of_blankOut hopen (by simp) hplace
  rw [List.append_assoc] at heq
  obtain ⟨text, tail, rfl, _⟩ := exists_of_blankOut_eq_append hclose (by simp) heq.symm
  obtain ⟨d, hd⟩ : ∃ d, commentKind.at? _ c.span.start = some d :=
    exists_htmlCommentAt?_iff.mpr ⟨text, tail, by rw [List.append_assoc]⟩
  exact ⟨d, PartKind.standsIn_of_at? hrest hd, PartKind.start_of_at? hd, houtside⟩

/-- A part that starts outside of the spans is outside of them as a whole, where no span starts in it. -/
theorem outside_of_start {part : Span} (hstarts : ∀ s ∈ spans, part.has s.start = false)
    (h : spans.any (·.has part.start) = false) {n : Nat} (hn : part.has n) :
    spans.any (·.has n) = false := by
  rw [List.any_eq_false] at h ⊢
  intro s hs hsn
  have hstart : ¬ part.has s.start := by simp [hstarts s hs]
  have hout := h s hs
  rw [Span.has_iff] at *
  omega

section

variable {text : List Char} (hstarts : ∀ s ∈ spans, ∀ r ∈ htmlComments text, r.span.has s.start = false)
include hstarts

/-- Up to a place, the comments of the blanked text are those of the text that start outside of the spans, if
each comment that starts in a span ends in one. -/
theorem mem_htmlComments_blankOut_iff {place : Nat}
    (hconfined : ∀ r ∈ htmlComments text, r.span.start ≤ place → spans.any (·.has r.span.start) →
      ∃ s ∈ spans, s.has r.span.start ∧ r.span.stop ≤ s.stop)
    {c : Comment.Source} (hc : c.span.start ≤ place) : c ∈ htmlComments (blankOut spans 0 text) ↔
      c ∈ htmlComments text ∧ spans.any (·.has c.span.start) = false := by
  have hraw := leftmost_comments text
  have hblanked := leftmost_comments (blankOut spans 0 text)
  have hkept : ∀ r : Comment.Source,
      r ∈ (htmlComments text).filter (fun r => !spans.any (·.has r.span.start)) ↔
        r ∈ htmlComments text ∧ spans.any (·.has r.span.start) = false := by
    intro r
    rw [List.mem_filter, Bool.not_eq_true']
  rw [← hkept]
  apply hblanked.mem_iff_of_start_le (hraw.filter _) (fun _ _ ha hb => ha.eq hb) _ _ hc
  · intro r hr _
    obtain ⟨hr, hout⟩ := (hkept r).mp hr
    exact (hraw.sound r hr).blankOut fun n hn => outside_of_start (fun s hs => hstarts s hs r hr) hout hn
  · intro d hd hle
    obtain ⟨e, he, hstart, hout⟩ := exists_comment_of_blankOut hd
    obtain ⟨r, hr, hrd⟩ := hraw.complete e he
    change r.span.has e.span.start at hrd
    change d.span.start ≤ place at hle
    rw [hstart] at hrd
    refine ⟨r, (hkept r).mpr ⟨hr, ?_⟩, hrd⟩
    by_contra hin
    have hstart_le := (Span.has_iff.mp hrd).1
    obtain ⟨s, hs, hsr, hstop⟩ := hconfined r hr (by omega) (by simpa using hin)
    rw [List.any_eq_false] at hout
    exact hout s hs (Span.has_of_within hsr hstop hrd)

/-- The comments stay as they are just when none of them starts in a span. -/
theorem htmlComments_blankOut_eq_iff : htmlComments (blankOut spans 0 text) = htmlComments text ↔
    ∀ r ∈ htmlComments text, spans.any (·.has r.span.start) = false := by
  have hraw := leftmost_comments text
  have hblanked := leftmost_comments (blankOut spans 0 text)
  constructor
  · intro heq r hr
    rw [← heq] at hr
    obtain ⟨_, _, _, houtside⟩ := exists_comment_of_blankOut (hblanked.sound r hr)
    exact houtside
  · intro h
    refine hblanked.toApart.eq_of_mem_iff hraw.toApart fun c => ?_
    have hconfined : ∀ r ∈ htmlComments text, r.span.start ≤ c.span.start →
        spans.any (·.has r.span.start) → ∃ s ∈ spans, s.has r.span.start ∧ r.span.stop ≤ s.stop := by
      intro r hr _ hin
      rw [h r hr] at hin
      cases hin
    rw [mem_htmlComments_blankOut_iff hstarts hconfined le_rfl, and_iff_left_of_imp (h c)]

end

end

end ComponentDoc.Component
