import ComponentDoc.Proofs.Text.Boundary

namespace ComponentDoc.Text

theorem byteLength_pos {cs : List Char} (h : cs ≠ []) : 0 < byteLength cs := by
  have hlen := List.length_pos_of_ne_nil h
  have hle := length_le_byteLength cs
  omega

/-- The text from a place on. -/
def StandsAt (text : List Char) (place : Nat) (rest : List Char) : Prop :=
  ∃ before, text = before ++ rest ∧ byteLength before = place

theorem standsAt_zero (text : List Char) : StandsAt text 0 text :=
  ⟨[], rfl, rfl⟩

theorem standsAt_cons_iff {c : Char} {cs rest : List Char} {place : Nat} : StandsAt (c :: cs) place rest ↔
    place = 0 ∧ rest = c :: cs ∨ ∃ n, place = c.utf8Size + n ∧ StandsAt cs n rest := by
  constructor
  · rintro ⟨before, htext, rfl⟩
    cases before with
    | nil => exact .inl ⟨rfl, htext.symm⟩
    | cons d before =>
      obtain ⟨rfl, rfl⟩ := List.cons.inj htext
      exact .inr ⟨byteLength before, byteLength_cons c before, before, rfl, rfl⟩
  · rintro (⟨rfl, rfl⟩ | ⟨n, rfl, before, rfl, rfl⟩)
    · exact standsAt_zero _
    · exact ⟨c :: before, rfl, byteLength_cons c before⟩

theorem StandsAt.eq {text rest rest' : List Char} {place : Nat} (h : StandsAt text place rest)
    (h' : StandsAt text place rest') : rest = rest' := by
  obtain ⟨before, rfl, rfl⟩ := h
  obtain ⟨before', heq, hplace⟩ := h'
  have hcut := cutBytes?_byteLength before rest
  rw [heq, ← hplace, cutBytes?_byteLength] at hcut
  exact (Prod.mk.inj (Option.some.inj hcut)).2.symm

theorem StandsAt.tail {text rest : List Char} {place : Nat} {c : Char} (h : StandsAt text place (c :: rest)) :
    StandsAt text (place + c.utf8Size) rest := by
  obtain ⟨before, rfl, rfl⟩ := h
  exact ⟨before ++ [c], by simp, byteLength_append before [c]⟩

theorem StandsAt.append {text front rest : List Char} {place : Nat} (h : StandsAt text place (front ++ rest)) :
    StandsAt text (place + byteLength front) rest := by
  obtain ⟨before, rfl, rfl⟩ := h
  exact ⟨before ++ front, by simp, byteLength_append before front⟩

theorem StandsAt.dropWhile {text cs : List Char} {place : Nat} (h : StandsAt text place cs) (p : Char → Bool) :
    StandsAt text (place + byteLength (cs.takeWhile p)) (cs.dropWhile p) := by
  apply StandsAt.append
  rwa [List.takeWhile_append_dropWhile]

theorem StandsAt.le_byteLength {text rest : List Char} {place : Nat} (h : StandsAt text place rest) :
    place + byteLength rest = byteLength text := by
  obtain ⟨before, rfl, rfl⟩ := h
  rw [byteLength_append]

/-- Of two beginnings of a text the one with fewer bytes is the beginning of the other. -/
theorem StandsAt.exists_between {text rest rest' : List Char} {place place' : Nat}
    (h : StandsAt text place rest) (h' : StandsAt text place' rest') (hle : place ≤ place') :
    ∃ between, rest = between ++ rest' ∧ place' = place + byteLength between := by
  obtain ⟨before, rfl, rfl⟩ := h
  obtain ⟨before', heq, rfl⟩ := h'
  rcases List.append_eq_append_iff.mp heq with ⟨between, rfl, rfl⟩ | ⟨between, rfl, rfl⟩
  · exact ⟨between, rfl, byteLength_append before between⟩
  · have hnil : between = [] := by
      have hpos := length_le_byteLength between
      rw [byteLength_append] at hle
      exact List.eq_nil_of_length_eq_zero (by omega)
    subst hnil
    exact ⟨[], by simp, by simp⟩

theorem after?_eq_some_iff {mark cs rest : List Char} : after? mark cs = some rest ↔ cs = mark ++ rest := by
  unfold after?
  constructor
  · intro h
    split_ifs at h with hp
    obtain ⟨t, rfl⟩ := List.isPrefixOf_iff_prefix.mp hp
    rw [← Option.some.inj h, List.drop_left]
  · rintro rfl
    rw [if_pos (List.isPrefixOf_iff_prefix.mpr (List.prefix_append mark rest)), List.drop_left]

theorem cutAt?_eq_some_iff {d : Char} {cs before rest : List Char} :
    cutAt? d cs = some (before, rest) ↔ d ∉ before ∧ cs = before ++ d :: rest := by
  induction cs generalizing before with
  | nil => simp [cutAt?]
  | cons c cs ih =>
    unfold cutAt?
    by_cases hc : c = d
    · subst hc
      cases before with
      | nil => simp [eq_comm]
      | cons b before =>
        simp only [beq_self_eq_true, if_true, Option.some.injEq, Prod.mk.injEq, List.cons_append,
          List.cons.injEq, List.mem_cons, not_or]
        constructor
        · rintro ⟨h, _⟩
          cases h
        · rintro ⟨⟨hne, _⟩, heq, _⟩
          exact absurd heq hne
    · rw [if_neg (by simpa using hc)]
      cases before with
      | nil =>
        simp only [Option.map_eq_some_iff, List.nil_append, List.cons.injEq]
        constructor
        · rintro ⟨p, _, hp⟩
          cases hp
        · rintro ⟨_, heq, _⟩
          exact absurd heq hc
      | cons b before =>
        simp only [Option.map_eq_some_iff, Prod.mk.injEq, List.cons.injEq, List.cons_append,
          List.mem_cons, not_or]
        constructor
        · rintro ⟨⟨w, r⟩, hw, ⟨rfl, rfl⟩, rfl⟩
          obtain ⟨hd, heq⟩ := ih.mp hw
          exact ⟨⟨fun h => hc h.symm, hd⟩, rfl, heq⟩
        · rintro ⟨⟨_, hd⟩, rfl, heq⟩
          exact ⟨(before, rest), ih.mpr ⟨hd, heq⟩, ⟨rfl, rfl⟩, rfl⟩

theorem eq_append_of_cutAtMark? {mark cs before rest : List Char}
    (h : cutAtMark? mark cs = some (before, rest)) : cs = before ++ mark ++ rest := by
  induction cs generalizing before with
  | nil =>
    unfold cutAtMark? at h
    split_ifs at h with hm
    obtain ⟨rfl, rfl⟩ := Prod.mk.inj (Option.some.inj h)
    simpa using hm
  | cons c cs ih =>
    unfold cutAtMark? at h
    cases ha : after? mark (c :: cs) with
    | some r =>
      rw [ha] at h
      obtain ⟨rfl, rfl⟩ := Prod.mk.inj (Option.some.inj h)
      exact after?_eq_some_iff.mp ha
    | none =>
      rw [ha] at h
      obtain ⟨⟨w, r⟩, hw, hp⟩ := Option.map_eq_some_iff.mp h
      obtain ⟨rfl, rfl⟩ := Prod.mk.inj hp
      rw [ih hw]
      rfl

theorem hasMark_of_isInfix {mark cs : List Char} (h : mark <:+: cs) : hasMark mark cs := by
  obtain ⟨before, rest, rfl⟩ := h
  unfold hasMark
  induction before with
  | nil =>
    have ha : after? mark (mark ++ rest) = some rest := after?_eq_some_iff.mpr rfl
    cases hcs : mark ++ rest with
    | nil =>
      obtain ⟨rfl, _⟩ := List.append_eq_nil_iff.mp hcs
      simp [hcs, cutAtMark?]
    | cons c cs =>
      rw [hcs] at ha
      rw [List.nil_append, hcs, cutAtMark?, ha]
      rfl
  | cons c before ih =>
    rw [List.cons_append, List.cons_append, cutAtMark?]
    cases after? mark (c :: (before ++ mark ++ rest)) with
    | some r => rfl
    | none => rwa [Option.isSome_map]

theorem hasMark_iff_isInfix {mark cs : List Char} : hasMark mark cs ↔ mark <:+: cs := by
  refine ⟨fun h => ?_, hasMark_of_isInfix⟩
  obtain ⟨⟨before, rest⟩, hcut⟩ := Option.isSome_iff_exists.mp h
  exact ⟨before, rest, (eq_append_of_cutAtMark? hcut).symm⟩

theorem hasMark_iff_standsAt {mark cs : List Char} :
    hasMark mark cs ↔ ∃ place rest, StandsAt cs place (mark ++ rest) := by
  rw [hasMark_iff_isInfix]
  constructor
  · rintro ⟨before, rest, rfl⟩
    exact ⟨_, rest, before, List.append_assoc .., rfl⟩
  · rintro ⟨_, rest, before, rfl, _⟩
    exact ⟨before, rest, List.append_assoc ..⟩

/-- A mark stands on one side of a character that it does not have. -/
theorem before_or_behind {between mark rest front tail : List Char} {c : Char} (hc : c ∉ mark)
    (h : front ++ c :: tail = between ++ (mark ++ rest)) :
    (∃ more, front = between ++ mark ++ more) ∨ ∃ more, between = front ++ c :: more := by
  rcases List.append_eq_append_iff.mp h with ⟨more, rfl, hmore⟩ | ⟨more, rfl, hmore⟩
  · cases more with
    | nil =>
      cases mark with
      | nil => exact .inl ⟨[], by simp⟩
      | cons d mark =>
        obtain ⟨rfl, _⟩ := List.cons.inj hmore
        exact absurd List.mem_cons_self hc
    | cons d more =>
      obtain ⟨rfl, _⟩ := List.cons.inj hmore
      exact .inr ⟨more, rfl⟩
  · rcases List.append_eq_append_iff.mp hmore with ⟨more', rfl, _⟩ | ⟨more', rfl, hmore'⟩
    · exact .inl ⟨more', by simp⟩
    · cases more' with
      | nil => exact .inl ⟨[], by simp⟩
      | cons d more' =>
        obtain ⟨rfl, _⟩ := List.cons.inj hmore'
        exact absurd (by simp) hc

/-- A cut is made at the same place, whatever comes after the mark. -/
theorem cutAtMark?_append {mark before rest : List Char} (hmark : mark ≠ [])
    (h : cutAtMark? mark (before ++ mark ++ rest) = some (before, rest)) (rest' : List Char) :
    cutAtMark? mark (before ++ mark ++ rest') = some (before, rest') := by
  induction before with
  | nil =>
    have ha : after? mark (mark ++ rest') = some rest' := after?_eq_some_iff.mpr rfl
    obtain ⟨m, ms, rfl⟩ := List.exists_cons_of_ne_nil hmark
    rw [List.nil_append, List.cons_append, cutAtMark?]
    rw [List.cons_append] at ha
    rw [ha]
  | cons c before ih =>
    rw [List.cons_append, List.cons_append, cutAtMark?] at h ⊢
    cases ha : after? mark (c :: (before ++ mark ++ rest)) with
    | some r =>
      rw [ha] at h
      cases h
    | none =>
      rw [ha] at h
      -- The mark would end before the rest, so it stands here in both texts or in none.
      have ha' : after? mark (c :: (before ++ mark ++ rest')) = none := by
        by_contra hn
        obtain ⟨r, hr⟩ := Option.ne_none_iff_exists'.mp hn
        have hpre : mark <+: c :: (before ++ mark) ++ rest' := ⟨r, (after?_eq_some_iff.mp hr).symm⟩
        have hpre' : mark <+: c :: (before ++ mark) := by
          refine List.prefix_of_prefix_length_le hpre (List.prefix_append _ _) ?_
          simp only [List.length_cons, List.length_append]
          omega
        obtain ⟨t, ht⟩ := hpre'.trans (List.prefix_append (c :: (before ++ mark)) rest)
        have hsome : after? mark (c :: (before ++ mark ++ rest)) = some t := by
          rw [after?_eq_some_iff, ht]
          rfl
        rw [ha] at hsome
        cases hsome
      obtain ⟨⟨w, r⟩, hw, hp⟩ := Option.map_eq_some_iff.mp h
      obtain ⟨hcons, rfl⟩ := Prod.mk.inj hp
      obtain rfl := (List.cons.inj hcons).2
      rw [ha', ih hw]
      rfl

/-- A character that is no space comes right before or right after the place. -/
def Edge (text : List Char) (place : Nat) : Prop :=
  ∃ n c rest, StandsAt text n (c :: rest) ∧ c ≠ ' ' ∧ (place = n ∨ place = n + c.utf8Size)

theorem Edge.onBoundary {text : List Char} {place : Nat} (h : Edge text place) : OnBoundary text place := by
  obtain ⟨n, c, rest, ⟨before, rfl, rfl⟩, -, rfl | rfl⟩ := h
  · exact ⟨before, c :: rest, rfl, rfl⟩
  · exact ⟨before ++ [c], rest, by simp, byteLength_append before [c]⟩

/-- The piece stands at a place of the text, and both of its ends are edges. -/
structure Framed (text : List Char) (place : Nat) (piece : List Char) : Prop where
  stands : ∃ rest, StandsAt text place (piece ++ rest)
  start_edge : Edge text place
  stop_edge : Edge text (place + byteLength piece)

/-- A piece between two characters that are no spaces. -/
theorem framed_of_between {text piece rest : List Char} {place : Nat} {c d : Char}
    (h : StandsAt text place (c :: (piece ++ d :: rest))) (hc : c ≠ ' ') (hd : d ≠ ' ') :
    Framed text (place + c.utf8Size) piece where
  stands := ⟨d :: rest, h.tail⟩
  start_edge := ⟨place, c, piece ++ d :: rest, h, hc, .inr rfl⟩
  stop_edge := ⟨place + c.utf8Size + byteLength piece, d, rest, h.tail.append, hd, .inl rfl⟩

/-- A piece that neither starts nor ends with a space; where it is empty, no space comes after it. -/
theorem framed_of_head_of_last {text piece rest : List Char} {place : Nat}
    (h : StandsAt text place (piece ++ rest)) (hne : piece ++ rest ≠ [])
    (hhead : ∀ c, (piece ++ rest).head? = some c → c ≠ ' ') (hlast : ∀ c, piece.getLast? = some c → c ≠ ' ') :
    Framed text place piece := by
  obtain ⟨c, more, hcons⟩ := List.exists_cons_of_ne_nil hne
  have hstart : Edge text place := ⟨place, c, more, hcons ▸ h, hhead c (by rw [hcons]; rfl), .inl rfl⟩
  refine ⟨⟨rest, h⟩, hstart, ?_⟩
  rcases List.eq_nil_or_concat' piece with rfl | ⟨front, d, rfl⟩
  · exact hstart
  · have hd : StandsAt text (place + byteLength front) (d :: rest) := by
      apply StandsAt.append
      simpa using h
    refine ⟨place + byteLength front, d, rest, hd, hlast d (by simp), .inr ?_⟩
    simp [byteLength_append, Nat.add_assoc]

end ComponentDoc.Text
