import ComponentDoc.Proofs.Component.Leftmost

namespace ComponentDoc.Component

open Text

/-- One step of reading attributes. -/
theorem attributes?_eq (place : List Char → Nat) (cs : List Char) : attributes? place cs =
    match cs.dropWhile isAsciiBlank with
    | [] => none
    | '>' :: rest => some ([], rest)
    | '/' :: rest => attributes? place rest
    | '=' :: rest => attributes? place rest
    | '\x7b' :: rest => attributes? place (cutExpression 0 none ('\x7b' :: rest)).2
    | c :: more => (attributeValue? place (more.dropWhile (!endsAttributeName ·))).bind
        fun (value, rest) => (attributes? place rest).map fun (others, after) =>
          (⟨c :: more.takeWhile (!endsAttributeName ·), place (c :: more), value⟩ :: others, after) := by
  fun_cases attributes? place cs with
  | case1 h => rw [h]
  | case2 rest h => rw [h]; rfl
  | case3 rest h => rw [h]; rfl
  | case4 rest h => rw [h]; rfl
  | case5 rest h => rw [h]; rfl
  | case6 c more hc hc' hc'' hc''' h hv => rw [h]; simp only [hv]; rfl
  | case7 c more hc hc' hc'' hc''' h name value rest hv => rw [h]; simp only [hv]; rfl

/-- The step at the start of a name. -/
theorem attributes?_of_name (place : List Char → Nat) {cs more : List Char} {c : Char}
    (hcs : cs.dropWhile isAsciiBlank = c :: more) (hc : endsAttributeName c = false) (hbrace : c ≠ '\x7b') :
    attributes? place cs = (attributeValue? place (more.dropWhile (!endsAttributeName ·))).bind
      fun (value, rest) => (attributes? place rest).map fun (others, after) =>
        (⟨c :: more.takeWhile (!endsAttributeName ·), place (c :: more), value⟩ :: others, after) := by
  have hne {d : Char} (hd : endsAttributeName d) : c ≠ d := by
    rintro rfl
    rw [hd] at hc
    cases hc
  rw [attributes?_eq, hcs]
  split
  · next heq => cases heq
  · next heq => exact absurd (List.cons.inj heq).1 (hne (by decide))
  · next heq => exact absurd (List.cons.inj heq).1 (hne (by decide))
  · next heq => exact absurd (List.cons.inj heq).1 (hne (by decide))
  · next heq => exact absurd (List.cons.inj heq).1 hbrace
  · next heq =>
    obtain ⟨rfl, rfl⟩ := List.cons.inj heq
    rfl

theorem tagAt?_of_ne {c : Char} (h : '<' ≠ c) (cs : List Char) (offset : Nat) :
    tagAt? (c :: cs) offset = none := by
  unfold tagAt?
  split
  · next heq => exact absurd (List.cons.inj heq).1.symm h
  · rfl

/-- Where the rest of a text starts, which has so many bytes from an offset on. -/
def placeFrom (offset total : Nat) (rest : List Char) : Nat :=
  offset + (total - byteLength rest)

theorem tagAt?_cons (c : Char) (more : List Char) (offset : Nat) : tagAt? ('<' :: c :: more) offset =
    if isAsciiLetter c then
      (attributes? (placeFrom offset (byteLength ('<' :: c :: more)))
        ((c :: more).dropWhile isTagNameChar)).map fun (attributes, rest) =>
          (⟨(c :: more).takeWhile isTagNameChar, offset, attributes⟩,
            placeFrom offset (byteLength ('<' :: c :: more)) rest)
    else none := rfl

theorem exists_cons_of_tagAt? {cs : List Char} {offset stop : Nat} {tag : Tag}
    (h : tagAt? cs offset = some (tag, stop)) : ∃ c more, cs = '<' :: c :: more ∧ isAsciiLetter c := by
  unfold tagAt? at h
  split at h
  · next c more =>
    split_ifs at h with hc
    exact ⟨c, more, rfl, hc⟩
  · cases h

section

variable {p : Char → Bool} {body rest : List Char} (hbody : ∀ c ∈ body, p c)
  (hrest : ∀ c, rest.head? = some c → p c = false)
include hbody hrest

theorem takeWhile_append_of_head : (body ++ rest).takeWhile p = body := by
  cases rest with
  | nil => rw [List.append_nil, List.takeWhile_eq_self_iff.mpr hbody]
  | cons c rest =>
    have hc : ¬ p c := by simp [hrest c rfl]
    rw [List.takeWhile_append_of_pos hbody, List.takeWhile_cons_of_neg hc, List.append_nil]

theorem dropWhile_append_of_head : (body ++ rest).dropWhile p = rest := by
  cases rest with
  | nil => rw [List.append_nil, List.dropWhile_eq_nil_iff.mpr hbody]
  | cons c rest =>
    have hc : ¬ p c := by simp [hrest c rfl]
    rw [List.dropWhile_append_of_pos hbody, List.dropWhile_cons_of_neg hc]

end

theorem head?_dropWhile_of_some {p : Char → Bool} {cs : List Char} {c : Char}
    (h : (cs.dropWhile p).head? = some c) : p c = false := by
  have hnot := List.head?_dropWhile_not p cs
  simpa [h] using hnot

/-- An expression and what comes after it make up the text. -/
theorem cutExpression_append (depth : Nat) (quote : Option Char) (cs : List Char) :
    (cutExpression depth quote cs).1 ++ (cutExpression depth quote cs).2 = cs := by
  fun_induction cutExpression depth quote cs <;> simp_all

/-- An expression that does not take the whole text ends with its closing brace. -/
theorem getLast?_cutExpression {depth : Nat} {quote : Option Char} {cs : List Char}
    (h : (cutExpression depth quote cs).2 ≠ []) :
    (cutExpression depth quote cs).1.getLast? = some '\x7d' := by
  fun_induction cutExpression depth quote cs <;> simp_all [List.getLast?_cons]

theorem value?_suffix {cs value rest : List Char} {quotes : Nat} (h : value? cs = some (value, quotes, rest)) :
    rest <:+ cs := by
  unfold value? at h
  split at h
  · cases h
  · next c more =>
    split_ifs at h
    · obtain ⟨⟨inside, after⟩, hcut, hp⟩ := Option.map_eq_some_iff.mp h
      obtain rfl : after = rest := congrArg (·.2.2) hp
      exact ⟨c :: (inside ++ [c]), by simp [(cutAt?_eq_some_iff.mp hcut).2]⟩
    · obtain rfl := congrArg (·.2.2) (Option.some.inj h)
      exact ⟨_, cutExpression_append 0 none (c :: more)⟩
    · obtain rfl := congrArg (·.2.2) (Option.some.inj h)
      exact List.dropWhile_suffix _

theorem attributeValue?_suffix {place : List Char → Nat} {cs rest : List Char} {value : Option (List Char × Nat)}
    (h : attributeValue? place cs = some (value, rest)) : rest <:+ cs := by
  unfold attributeValue? at h
  split at h
  · next more hmore =>
    obtain ⟨⟨v, quotes, after⟩, hvalue, hp⟩ := Option.map_eq_some_iff.mp h
    obtain rfl : after = rest := congrArg (·.2) hp
    calc after <:+ more.dropWhile isAsciiBlank := value?_suffix hvalue
      _ <:+ more := List.dropWhile_suffix _
      _ <:+ cs.dropWhile isAsciiBlank := hmore ▸ List.suffix_cons '=' more
      _ <:+ cs := List.dropWhile_suffix _
  · obtain rfl := congrArg (·.2) (Option.some.inj h)
    exact List.suffix_rfl

/-- The function tells where each rest of the text starts, from an offset on. -/
def TellsPlaces (text : List Char) (offset : Nat) (place : List Char → Nat) : Prop :=
  ∀ n rest, StandsAt text n rest → offset ≤ n → place rest = n

theorem tellsPlaces_placeFrom {text cs : List Char} {offset : Nat} (h : StandsAt text offset cs) :
    TellsPlaces text offset (placeFrom offset (byteLength cs)) := by
  intro n rest hrest hle
  obtain ⟨between, rfl, rfl⟩ := h.exists_between hrest hle
  rw [placeFrom, byteLength_append, Nat.add_sub_cancel]

/-- An attribute stands in a stretch of the text with its name and its value. -/
structure Attribute.StandsIn (text : List Char) (start stop : Nat) (a : Attribute) : Prop where
  name_plain : ∀ c ∈ a.name, endsAttributeName c = false
  name : Framed text a.start a.name
  name_within : start ≤ a.start ∧ a.start + byteLength a.name ≤ stop
  value : ∀ value n, a.value = some (value, n) →
    Framed text n value ∧ start ≤ n ∧ n + byteLength value ≤ stop

theorem Attribute.StandsIn.mono {text : List Char} {start start' stop stop' : Nat} {a : Attribute}
    (h : a.StandsIn text start' stop) (hstart : start ≤ start') (hstop : stop ≤ stop') :
    a.StandsIn text start stop' where
  name_plain := h.name_plain
  name := h.name
  name_within := by
    have hname := h.name_within
    omega
  value value n hvalue := by
    obtain ⟨hframed, hle, hle'⟩ := h.value value n hvalue
    exact ⟨hframed, by omega, by omega⟩

theorem ne_space_of_not_isAsciiBlank {c : Char} (h : isAsciiBlank c = false) : c ≠ ' ' := by
  rintro rfl
  exact absurd h (by decide)

/-- A value is cut off the front of its text; what comes after it is not empty where the tag goes on. -/
theorem framed_of_value? {text cs value rest : List Char} {n quotes : Nat} (h : StandsAt text n cs)
    (hhead : ∀ c, cs.head? = some c → isAsciiBlank c = false) (hv : value? cs = some (value, quotes, rest))
    (hrest : rest ≠ []) : Framed text (n + quotes) value ∧
      ∃ stop, StandsAt text stop rest ∧ n + quotes + byteLength value ≤ stop := by
  unfold value? at hv
  split at hv
  · cases hv
  · next c more =>
    split_ifs at hv with hquote hbrace
    · obtain ⟨⟨inside, after⟩, hcut, hp⟩ := Option.map_eq_some_iff.mp hv
      simp only [Prod.mk.injEq] at hp
      obtain ⟨rfl, rfl, rfl⟩ := hp
      obtain ⟨_, rfl⟩ := cutAt?_eq_some_iff.mp hcut
      have hsize : c.utf8Size = 1 := by
        simp only [Bool.or_eq_true, beq_iff_eq] at hquote
        rcases hquote with rfl | rfl <;> decide
      have hc : c ≠ ' ' := ne_space_of_not_isAsciiBlank (hhead c rfl)
      have hstop := h.tail.append.tail
      have hframed := framed_of_between h hc hc
      rw [hsize] at hframed hstop
      exact ⟨hframed, _, hstop, by omega⟩
    · simp only [Option.some.injEq, Prod.mk.injEq] at hv
      obtain ⟨hvalue, rfl, hafter⟩ := hv
      have hwhole := cutExpression_append 0 none (c :: more)
      have hlast := getLast?_cutExpression (hafter ▸ hrest)
      rw [hvalue, hafter] at hwhole
      rw [hvalue] at hlast
      rw [← hwhole] at h hhead
      refine ⟨framed_of_head_of_last h (by simp [hrest])
        (fun d hd => ne_space_of_not_isAsciiBlank (hhead d hd)) ?_, _, h.append, le_rfl⟩
      intro d hd
      obtain rfl : '\x7d' = d := Option.some.inj (hlast.symm.trans hd)
      decide
    · simp only [Option.some.injEq, Prod.mk.injEq] at hv
      obtain ⟨rfl, rfl, rfl⟩ := hv
      have hwhole := List.takeWhile_append_dropWhile (p := (!endsBareValue ·)) (l := c :: more)
      rw [← hwhole] at h hhead
      refine ⟨framed_of_head_of_last h (by simp)
        (fun d hd => ne_space_of_not_isAsciiBlank (hhead d hd)) ?_, _, h.append, le_rfl⟩
      intro d hd
      have hplain := List.mem_takeWhile_imp (List.mem_of_getLast? hd)
      apply ne_space_of_not_isAsciiBlank
      simp only [endsBareValue, Bool.not_or, Bool.and_eq_true, Bool.not_eq_true'] at hplain
      exact hplain.1

/-- The value of an attribute stands in what is read of it. -/
theorem framed_of_attributeValue? {text cs rest : List Char} {offset n : Nat} {place : List Char → Nat}
    {value : Option (List Char × Nat)} (hplace : TellsPlaces text offset place) (h : StandsAt text n cs)
    (hn : offset ≤ n) (hv : attributeValue? place cs = some (value, rest)) (hrest : rest ≠ []) :
    ∃ stop, StandsAt text stop rest ∧ n ≤ stop ∧ ∀ v m, value = some (v, m) →
      Framed text m v ∧ n ≤ m ∧ m + byteLength v ≤ stop := by
  unfold attributeValue? at hv
  split at hv
  · next more hmore =>
    obtain ⟨⟨v, quotes, after⟩, hvalue, hp⟩ := Option.map_eq_some_iff.mp hv
    simp only [Prod.mk.injEq] at hp
    obtain ⟨rfl, rfl⟩ := hp
    have hequals := h.dropWhile isAsciiBlank
    rw [hmore] at hequals
    have hstart := hequals.tail.dropWhile isAsciiBlank
    obtain ⟨hframed, stop, hstop, hle⟩ :=
      framed_of_value? hstart (fun c hc => head?_dropWhile_of_some hc) hvalue hrest
    rw [hplace _ _ hstart (by omega)]
    refine ⟨stop, hstop, by omega, ?_⟩
    intro w m hw
    simp only [Option.some.injEq, Prod.mk.injEq] at hw
    obtain ⟨rfl, rfl⟩ := hw
    exact ⟨hframed, by omega, hle⟩
  · obtain ⟨rfl, rfl⟩ := Prod.mk.inj (Option.some.inj hv)
    exact ⟨n, h, le_rfl, fun v m hv => by cases hv⟩

/-- Attributes stand one after the other, up to the end of their tag. -/
theorem standsIn_of_attributes? {text cs after : List Char} {offset n : Nat} {place : List Char → Nat}
    {as : List Attribute} (hplace : TellsPlaces text offset place) (h : StandsAt text n cs) (hn : offset ≤ n)
    (ha : attributes? place cs = some (as, after)) :
    ∃ stop, StandsAt text stop after ∧ n < stop ∧ ∀ a ∈ as, a.StandsIn text n stop := by
  fun_induction attributes? place cs generalizing n as with
  | case1 cs hcs => cases ha
  | case2 cs rest hcs =>
    obtain ⟨rfl, rfl⟩ := Prod.mk.inj (Option.some.inj ha)
    have hclose := h.dropWhile isAsciiBlank
    rw [hcs] at hclose
    have hsize := '>'.utf8Size_pos
    exact ⟨_, hclose.tail, by omega, by simp⟩
  | case3 cs rest hcs ih =>
    have hslash := h.dropWhile isAsciiBlank
    rw [hcs] at hslash
    obtain ⟨stop, hstop, hlt, hall⟩ := ih hslash.tail (by omega) ha
    exact ⟨stop, hstop, by omega, fun a ha => (hall a ha).mono (by omega) le_rfl⟩
  | case4 cs rest hcs ih =>
    have hequals := h.dropWhile isAsciiBlank
    rw [hcs] at hequals
    obtain ⟨stop, hstop, hlt, hall⟩ := ih hequals.tail (by omega) ha
    exact ⟨stop, hstop, by omega, fun a ha => (hall a ha).mono (by omega) le_rfl⟩
  | case5 cs rest hcs ih =>
    have hbrace := h.dropWhile isAsciiBlank
    rw [hcs, ← cutExpression_append 0 none ('\x7b' :: rest)] at hbrace
    obtain ⟨stop, hstop, hlt, hall⟩ := ih hbrace.append (by omega) ha
    exact ⟨stop, hstop, by omega, fun a ha => (hall a ha).mono (by omega) le_rfl⟩
  | case6 cs c more _ _ _ _ hcs hv => cases ha
  | case7 cs c more hclose hslash hequals _ hcs name value rest hv =>
    rename_i ih
    obtain ⟨⟨others, after'⟩, hothers, hp⟩ := Option.map_eq_some_iff.mp ha
    obtain ⟨rfl, rfl⟩ := Prod.mk.inj hp
    have hblank : isAsciiBlank c = false := head?_dropWhile_of_some (by rw [hcs]; rfl)
    have hplain : ∀ d ∈ name, endsAttributeName d = false := by
      intro d hd
      rcases List.mem_cons.mp hd with rfl | hm
      · have hd' : d ≠ '=' ∧ d ≠ '>' ∧ d ≠ '/' := ⟨hequals, hclose, hslash⟩
        simp [endsAttributeName, hblank, hd']
      · simpa using List.mem_takeWhile_imp hm
    have hrest : rest ≠ [] := by
      rintro rfl
      rw [attributes?_eq] at hothers
      cases hothers
    -- The name comes first, then its value, then the other attributes.
    have hstart := h.dropWhile isAsciiBlank
    rw [hcs] at hstart
    have hname : StandsAt text (n + byteLength (cs.takeWhile isAsciiBlank))
        (name ++ more.dropWhile (!endsAttributeName ·)) := by
      simpa [name] using hstart
    have hframed : Framed text (n + byteLength (cs.takeWhile isAsciiBlank)) name := by
      refine framed_of_head_of_last hname (by simp [name]) ?_ ?_
      · intro d hd
        obtain rfl : c = d := by simpa [name] using hd
        exact ne_space_of_not_isAsciiBlank hblank
      · intro d hd
        have hd' := hplain d (List.mem_of_getLast? hd)
        simp only [endsAttributeName, Bool.or_eq_false_iff] at hd'
        exact ne_space_of_not_isAsciiBlank hd'.1.1.1
    obtain ⟨m, hm, hle, hvalue⟩ := framed_of_attributeValue? hplace hname.append (by omega) hv hrest
    obtain ⟨stop, hstop, hlt, hall⟩ := ih hm (by omega) hothers
    refine ⟨stop, hstop, by omega, ?_⟩
    intro a ha
    rcases List.mem_cons.mp ha with rfl | ha
    · rw [hplace _ _ hstart (by omega)]
      refine ⟨hplain, hframed, ⟨by simp, by simp only; omega⟩, ?_⟩
      intro v k hv
      obtain ⟨hv, hle', hle''⟩ := hvalue v k hv
      exact ⟨hv, by omega, by omega⟩
    · exact (hall a ha).mono (by omega) le_rfl

/-- A tag stands in the text from its start up to its end. -/
structure Tag.StandsIn (text : List Char) (stop : Nat) (tag : Tag) : Prop where
  opens : ∃ rest, StandsAt text tag.start ('<' :: rest)
  name : Framed text (tag.start + 1) tag.name
  name_within : tag.start + 1 + byteLength tag.name ≤ stop
  attributes : ∀ a ∈ tag.attributes, a.StandsIn text tag.start stop
  closes : ∃ rest, StandsAt text stop rest

theorem Tag.standsIn_of_tagAt? {text cs : List Char} {n stop : Nat} {tag : Tag} (h : StandsAt text n cs)
    (ht : tagAt? cs n = some (tag, stop)) : tag.start = n ∧ tag.StandsIn text stop := by
  obtain ⟨c, more, rfl, hc⟩ := exists_cons_of_tagAt? ht
  have hplace := tellsPlaces_placeFrom h
  rw [tagAt?_cons, if_pos hc] at ht
  obtain ⟨⟨as, after⟩, ha, hp⟩ := Option.map_eq_some_iff.mp ht
  obtain ⟨rfl, rfl⟩ := Prod.mk.inj hp
  have hsize : '<'.utf8Size = 1 := by decide
  have hname := h.tail
  rw [hsize, ← List.takeWhile_append_dropWhile (p := isTagNameChar) (l := c :: more)] at hname
  obtain ⟨stop, hstop, hlt, hall⟩ := standsIn_of_attributes? hplace hname.append (by omega) ha
  rw [hplace _ _ hstop (by omega)]
  refine ⟨rfl, ⟨_, h⟩, ?_, ?_, ?_, ?_⟩
  · refine framed_of_head_of_last hname (by simp) ?_ ?_
    · intro d hd
      rw [List.takeWhile_append_dropWhile] at hd
      obtain rfl : c = d := by simpa using hd
      rintro rfl
      exact absurd hc (by decide)
    · intro d hd
      have hd' := List.mem_takeWhile_imp (List.mem_of_getLast? hd)
      rintro rfl
      exact absurd hd' (by decide)
  · exact hlt.le
  · intro a ha
    exact (hall a ha).mono (by simp only; omega) le_rfl
  · exact ⟨after, hstop⟩

/-- The tag that starts at an offset of a text, and where it ends. -/
def tagIn? (text : List Char) (offset : Nat) : Option (Tag × Nat) :=
  (cutBytes? offset text).bind fun (_, rest) => tagAt? rest offset

theorem tagIn?_of_standsAt {text rest : List Char} {offset : Nat} (h : StandsAt text offset rest) :
    tagIn? text offset = tagAt? rest offset := by
  obtain ⟨before, rfl, rfl⟩ := h
  rw [tagIn?, cutBytes?_byteLength]
  rfl

/-- Every tag that is found can be read where it starts, outside of what is skipped. -/
theorem standsAt_of_mem_tagsFrom {skipped : List Span} {taken offset : Nat} {cs : List Char} {tag : Tag}
    (h : tag ∈ tagsFrom skipped taken cs offset) : ∃ n rest stop, StandsAt cs n rest ∧
      tagAt? rest (offset + n) = some (tag, stop) ∧ skipped.any (·.has (offset + n)) = false := by
  induction cs generalizing taken offset with
  | nil => simp [tagsFrom] at h
  | cons c cs ih =>
    have hlater (taken : Nat) (h : tag ∈ tagsFrom skipped taken cs (offset + c.utf8Size)) :
        ∃ n rest stop, StandsAt (c :: cs) n rest ∧ tagAt? rest (offset + n) = some (tag, stop) ∧
          skipped.any (·.has (offset + n)) = false := by
      obtain ⟨n, rest, stop, hrest, ht, hout⟩ := ih h
      rw [Nat.add_assoc] at ht hout
      exact ⟨c.utf8Size + n, rest, stop, standsAt_cons_iff.mpr (.inr ⟨n, rfl, hrest⟩), ht, hout⟩
    unfold tagsFrom at h
    split_ifs at h with hskip
    · exact hlater taken h
    · cases ht : tagAt? (c :: cs) offset with
      | none =>
        rw [ht] at h
        exact hlater taken h
      | some p =>
        obtain ⟨found, stop⟩ := p
        rw [ht] at h
        rcases List.mem_cons.mp h with rfl | hm
        · simp only [Bool.or_eq_true, not_or, Bool.not_eq_true] at hskip
          exact ⟨0, c :: cs, stop, standsAt_zero _, ht, hskip.2⟩
        · exact hlater stop hm

end ComponentDoc.Component
