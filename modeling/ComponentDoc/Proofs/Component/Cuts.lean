import ComponentDoc.Proofs.Component.Bytewise

/-!
Tags read by offsets are the tags read by characters. A loop over bytes passes over whole characters, since it asks
of a byte only what it could ask of the character, so that it stops on a boundary. Main statement: every cut can be
made, and the same tags are found.
-/
namespace ComponentDoc.Component.Bytewise

open Text

/-- The two are the same to a reader that only knows the ASCII characters. -/
def Alike (c d : Char) : Prop :=
  c = d ∨ 0x80 ≤ c.toNat ∧ 0x80 ≤ d.toNat

/-- The property does not tell characters apart that are alike. -/
def Plain (p : Char → Bool) : Prop :=
  ∀ c d, Alike c d → p c = p d

theorem Plain.of_ascii {p : Char → Bool} (h : ∀ c, p c → c.toNat < 0x80) : Plain p := by
  rintro c d (rfl | ⟨hc, hd⟩)
  · rfl
  · have hc' : p c = false := Bool.eq_false_iff.mpr fun hp => absurd (h c hp) (by omega)
    have hd' : p d = false := Bool.eq_false_iff.mpr fun hp => absurd (h d hp) (by omega)
    rw [hc', hd']

theorem Plain.not {p : Char → Bool} (h : Plain p) : Plain (!p ·) :=
  fun c d hcd => congrArg (! ·) (h c d hcd)

theorem Plain.or {p q : Char → Bool} (hp : Plain p) (hq : Plain q) : Plain fun c => p c || q c :=
  fun c d hcd => congrArg₂ (· || ·) (hp c d hcd) (hq c d hcd)

theorem beq_eq_false_of_long {c x : Char} (hc : 0x80 ≤ c.toNat) (hx : x.toNat < 0x80) : (c == x) = false := by
  rw [beq_eq_false_iff_ne]
  rintro rfl
  omega

theorem isQuote_of_long {c : Char} (hc : 0x80 ≤ c.toNat) : isQuote c = false := by
  rw [isQuote, beq_eq_false_of_long hc (by decide), beq_eq_false_of_long hc (by decide),
    beq_eq_false_of_long hc (by decide)]
  rfl

theorem plain_beq {x : Char} (hx : x.toNat < 0x80) : Plain (· == x) :=
  .of_ascii fun c hc => by rwa [beq_iff_eq.mp hc]

theorem plain_isAsciiBlank : Plain isAsciiBlank :=
  ((((plain_beq (by decide)).or (plain_beq (by decide))).or (plain_beq (by decide))).or
    (plain_beq (by decide))).or (plain_beq (by decide))

theorem plain_isAsciiLetter : Plain isAsciiLetter := by
  refine .of_ascii fun c hc => ?_
  simp only [isAsciiLetter, Bool.or_eq_true, Bool.and_eq_true, Nat.ble_eq] at hc
  omega

theorem plain_isTagNameChar : Plain isTagNameChar := by
  refine (((Plain.or ?_ (plain_beq (by decide))).or (plain_beq (by decide))).or
    (plain_beq (by decide))).or (plain_beq (by decide))
  refine plain_isAsciiLetter.or (.of_ascii fun c hc => ?_)
  simp only [isAsciiDigit, Bool.and_eq_true, Nat.ble_eq] at hc
  omega

theorem plain_endsBareValue : Plain endsBareValue :=
  plain_isAsciiBlank.or (plain_beq (by decide))

theorem plain_endsAttributeName : Plain endsAttributeName :=
  ((plain_isAsciiBlank.or (plain_beq (by decide))).or (plain_beq (by decide))).or (plain_beq (by decide))

theorem toNat_ofNat_byte (b : UInt8) : (Char.ofNat b.toNat).toNat = b.toNat := by
  have hb := b.toNat_lt
  rw [Char.toNat_ofNat, if_pos]
  left
  omega

/-- Every byte of a character is alike to it. -/
theorem byteAt?_of_standsAt {text rest : List Char} {n i : Nat} {d : Char} (h : StandsAt text n (d :: rest))
    (hi : i < d.utf8Size) : ∃ c, byteAt? (bytes text) (n + i) = some c ∧ Alike c d := by
  obtain ⟨before, rfl, rfl⟩ := h
  have hlt : i < (String.utf8EncodeChar d).length := by rwa [String.length_utf8EncodeChar]
  have hb : (bytes (before ++ d :: rest))[byteLength before + i]? = some (String.utf8EncodeChar d)[i] := by
    rw [bytes_append, ← length_bytes, List.getElem?_append_right (by omega), Nat.add_sub_cancel_left, bytes_cons,
      List.getElem?_append_left hlt, List.getElem?_eq_getElem hlt]
  rw [byteAt?, hb]
  refine ⟨_, rfl, ?_⟩
  by_cases hd : d.utf8Size = 1
  · obtain rfl : i = 0 := by omega
    left
    have hbyte : (String.utf8EncodeChar d)[0] = d.toUInt8 := by
      simp [String.utf8EncodeChar_eq_singleton hd]
    simp only [hbyte, toNat_toUInt8 hd, Char.ofNat_toNat]
  · have hle := le_toNat_of_mem_utf8EncodeChar hd (List.getElem_mem hlt)
    rw [utf8Size_eq_one_iff] at hd
    exact .inr ⟨by rwa [toNat_ofNat_byte], by omega⟩

theorem byteAt?_of_end {text : List Char} {n : Nat} (h : byteLength text ≤ n) :
    byteAt? (bytes text) n = none := by
  rw [byteAt?, List.getElem?_eq_none (by rwa [length_bytes]), Option.map_none]

theorem byteAt?_of_ascii {text cs : List Char} {n : Nat} {c : Char} (h : StandsAt text n (c :: cs))
    (hc : c.toNat < 0x80) : byteAt? (bytes text) n = some c := by
  obtain ⟨d, hd, rfl | ⟨_, hc'⟩⟩ := byteAt?_of_standsAt h c.utf8Size_pos
  · exact hd
  · omega

theorem exists_alike_of_byteAt? {text cs : List Char} {n : Nat} {c : Char} (h : StandsAt text n cs)
    (hb : byteAt? (bytes text) n = some c) : ∃ d more, cs = d :: more ∧ Alike c d := by
  cases cs with
  | nil =>
    rw [byteAt?_of_end (by simpa using h.le_byteLength.ge)] at hb
    cases hb
  | cons d more =>
    obtain ⟨b, hb', hbd⟩ := byteAt?_of_standsAt h d.utf8Size_pos
    obtain rfl : c = b := Option.some.inj (hb.symm.trans hb')
    exact ⟨d, more, rfl, hbd⟩

theorem exists_cons_of_byteAt? {text cs : List Char} {n : Nat} {c : Char} (h : StandsAt text n cs)
    (hb : byteAt? (bytes text) n = some c) (hc : c.toNat < 0x80) : ∃ more, cs = c :: more := by
  obtain ⟨d, more, rfl, rfl | ⟨hlong, _⟩⟩ := exists_alike_of_byteAt? h hb
  · exact ⟨more, rfl⟩
  · omega

theorem eq_nil_of_byteAt? {text cs : List Char} {n : Nat} (h : StandsAt text n cs)
    (hb : byteAt? (bytes text) n = none) : cs = [] := by
  cases cs with
  | nil => rfl
  | cons d more =>
    obtain ⟨b, hb', -⟩ := byteAt?_of_standsAt h d.utf8Size_pos
    cases hb.symm.trans hb'

theorem skipWhile_of_end {p : Char → Bool} {text : List UInt8} {pos : Nat} (h : byteAt? text pos = none) :
    skipWhile p text pos = pos := by
  unfold skipWhile
  split <;> simp_all

theorem skipWhile_of_pos {p : Char → Bool} {text : List UInt8} {pos : Nat} {c : Char}
    (h : byteAt? text pos = some c) (hc : p c) : skipWhile p text pos = skipWhile p text (pos + 1) := by
  conv_lhs => unfold skipWhile
  split <;> simp_all

theorem skipWhile_of_neg {p : Char → Bool} {text : List UInt8} {pos : Nat} {c : Char}
    (h : byteAt? text pos = some c) (hc : p c = false) : skipWhile p text pos = pos := by
  unfold skipWhile
  split <;> simp_all

theorem skipWhile_add {p : Char → Bool} {text : List UInt8} {pos k : Nat}
    (h : ∀ i < k, ∃ c, byteAt? text (pos + i) = some c ∧ p c) :
    skipWhile p text pos = skipWhile p text (pos + k) := by
  induction k with
  | zero => rfl
  | succ k ih =>
    obtain ⟨c, hbyte, hc⟩ := h k (by omega)
    rw [ih fun i hi => h i (by omega), skipWhile_of_pos hbyte hc, Nat.add_assoc]

/-- A loop over bytes passes over whole characters. -/
theorem skipWhile_bytes {p : Char → Bool} (hp : Plain p) {text cs : List Char} {n : Nat}
    (h : StandsAt text n cs) : skipWhile p (bytes text) n = n + byteLength (cs.takeWhile p) := by
  induction cs generalizing n with
  | nil =>
    have hend := h.le_byteLength
    rw [skipWhile_of_end (byteAt?_of_end (by simpa using hend.ge))]
    rfl
  | cons d cs ih =>
    by_cases hd : p d
    · have hall : ∀ i < d.utf8Size, ∃ c, byteAt? (bytes text) (n + i) = some c ∧ p c := by
        intro i hi
        obtain ⟨c, hbyte, hc⟩ := byteAt?_of_standsAt h hi
        exact ⟨c, hbyte, by rwa [hp c d hc]⟩
      rw [skipWhile_add hall, ih h.tail, List.takeWhile_cons_of_pos hd, byteLength_cons, Nat.add_assoc]
    · obtain ⟨c, hbyte, hc⟩ := byteAt?_of_standsAt h d.utf8Size_pos
      rw [List.takeWhile_cons_of_neg hd]
      exact skipWhile_of_neg hbyte (by rw [hp c d hc]; simpa using hd)

theorem standsAt_skipWhile {p : Char → Bool} (hp : Plain p) {text cs : List Char} {n : Nat}
    (h : StandsAt text n cs) : StandsAt text (skipWhile p (bytes text) n) (cs.dropWhile p) := by
  rw [skipWhile_bytes hp h]
  exact h.dropWhile p

section

variable {text : List UInt8} {pos : Nat} {c : Char} (h : byteAt? text pos = some c) (depth : Nat)
include h

theorem skipExpression_quoted_byte (q : Char) : skipExpression text depth (some q) pos =
    if c == '\\' then skipExpression text depth (some q) (pos + 2)
    else if c == q then skipExpression text depth none (pos + 1)
    else skipExpression text depth (some q) (pos + 1) := by
  conv_lhs => unfold skipExpression
  split
  · simp_all
  · next d hd =>
    obtain rfl : c = d := Option.some.inj (h.symm.trans hd)
    rfl

theorem skipExpression_plain_byte : skipExpression text depth none pos =
    if isQuote c then skipExpression text depth (some c) (pos + 1)
    else if c == '\x7b' then skipExpression text (depth + 1) none (pos + 1)
    else if c == '\x7d' then
      if depth - 1 == 0 then pos + 1 else skipExpression text (depth - 1) none (pos + 1)
    else skipExpression text depth none (pos + 1) := by
  conv_lhs => unfold skipExpression
  split
  · simp_all
  · next d hd =>
    obtain rfl : c = d := Option.some.inj (h.symm.trans hd)
    rfl

end

theorem skipExpression_of_end {text : List UInt8} {pos : Nat} (h : byteAt? text pos = none) (depth : Nat)
    (quote : Option Char) : skipExpression text depth quote pos = text.length := by
  unfold skipExpression
  split <;> simp_all

/-- Bytes that are no ASCII characters do not matter to an expression. -/
theorem skipExpression_add {text : List UInt8} {quote : Option Char} {pos k : Nat} (depth : Nat)
    (hquote : ∀ q, quote = some q → q.toNat < 0x80)
    (h : ∀ i < k, ∃ c, byteAt? text (pos + i) = some c ∧ 0x80 ≤ c.toNat) :
    skipExpression text depth quote pos = skipExpression text depth quote (pos + k) := by
  induction k with
  | zero => rfl
  | succ k ih =>
    obtain ⟨c, hbyte, hc⟩ := h k (by omega)
    rw [ih fun i hi => h i (by omega), ← Nat.add_assoc]
    cases quote with
    | some q =>
      rw [skipExpression_quoted_byte hbyte, beq_eq_false_of_long hc (hquote q rfl),
        beq_eq_false_of_long hc (x := '\\') (by decide)]
      rfl
    | none =>
      rw [skipExpression_plain_byte hbyte, isQuote_of_long hc, beq_eq_false_of_long hc (x := '\x7b') (by decide),
        beq_eq_false_of_long hc (x := '\x7d') (by decide)]
      rfl

theorem skipExpression_long {text cs : List Char} {n : Nat} {c : Char} (h : StandsAt text n (c :: cs))
    (hc : 0x80 ≤ c.toNat) (depth : Nat) {quote : Option Char} (hquote : ∀ q, quote = some q → q.toNat < 0x80)
    {i : Nat} (hi : i ≤ c.utf8Size) : skipExpression (bytes text) depth quote (n + i) =
      skipExpression (bytes text) depth quote (n + c.utf8Size) := by
  have hlong : ∀ j < c.utf8Size - i, ∃ d, byteAt? (bytes text) (n + i + j) = some d ∧ 0x80 ≤ d.toNat := by
    intro j hj
    obtain ⟨d, hd, rfl | ⟨hd', _⟩⟩ := byteAt?_of_standsAt h (i := i + j) (by omega)
    · exact ⟨d, by rwa [Nat.add_assoc], hc⟩
    · exact ⟨d, by rwa [Nat.add_assoc], hd'⟩
  rw [skipExpression_add depth hquote hlong]
  congr 1
  omega

/-- One character of a string in an expression. -/
theorem skipExpression_quoted {text cs : List Char} {n : Nat} {c q : Char} (h : StandsAt text n (c :: cs))
    (hq : q.toNat < 0x80) (depth : Nat) : skipExpression (bytes text) depth (some q) n =
      if c == '\\' then skipExpression (bytes text) depth (some q) (n + 2)
      else skipExpression (bytes text) depth (if c == q then none else some q) (n + c.utf8Size) := by
  by_cases hc : c.toNat < 0x80
  · have hsize := utf8Size_eq_one_iff.mpr hc
    rw [skipExpression_quoted_byte (byteAt?_of_ascii h hc), hsize]
    split_ifs <;> rfl
  · have hlong : 0x80 ≤ c.toNat := by omega
    rw [beq_eq_false_of_long hlong (x := '\\') (by decide), beq_eq_false_of_long hlong hq]
    refine skipExpression_long h hlong depth ?_ (Nat.zero_le _)
    rintro _ ⟨⟩
    exact hq

/-- One character of an expression. -/
theorem skipExpression_plain {text cs : List Char} {n : Nat} {c : Char} (h : StandsAt text n (c :: cs))
    (depth : Nat) : skipExpression (bytes text) depth none n =
      if c == '\x7d' && Nat.ble depth 1 then n + 1
      else skipExpression (bytes text)
        (if c == '\x7b' then depth + 1 else if c == '\x7d' then depth - 1 else depth)
        (if isQuote c then some c else none) (n + c.utf8Size) := by
  by_cases hc : c.toNat < 0x80
  · have hsize := utf8Size_eq_one_iff.mpr hc
    have hzero : (depth - 1 == 0) = Nat.ble depth 1 := by
      rw [Bool.eq_iff_iff, beq_iff_eq, Nat.ble_eq]
      omega
    rw [skipExpression_plain_byte (byteAt?_of_ascii h hc), hsize, hzero]
    by_cases hopen : c = '\x7b'
    · subst hopen
      rfl
    · by_cases hclose : c = '\x7d'
      · subst hclose
        rfl
      · simp only [beq_eq_false_iff_ne.mpr hopen, beq_eq_false_iff_ne.mpr hclose, Bool.false_and]
        split <;> rfl
  · have hlong : 0x80 ≤ c.toNat := by omega
    rw [beq_eq_false_of_long hlong (x := '\x7b') (by decide), beq_eq_false_of_long hlong (x := '\x7d') (by decide),
      isQuote_of_long hlong]
    exact skipExpression_long h hlong depth (by simp) (Nat.zero_le _)

/-- An expression ends at the same place, read by bytes or by characters. -/
theorem skipExpression_bytes {text cs : List Char} {n : Nat} (h : StandsAt text n cs) (depth : Nat)
    (quote : Option Char) (hquote : ∀ q, quote = some q → q.toNat < 0x80) :
    skipExpression (bytes text) depth quote n = n + byteLength (cutExpression depth quote cs).1 := by
  fun_induction cutExpression depth quote cs generalizing n with
  | case1 depth quote =>
    have hend : n = byteLength text := h.le_byteLength
    rw [skipExpression_of_end (byteAt?_of_end hend.ge), length_bytes, ← hend]
    rfl
  | case2 depth c q hc =>
    obtain rfl := beq_iff_eq.mp hc
    have hend : n + 1 = byteLength text := h.tail.le_byteLength
    rw [skipExpression_quoted h (hquote q rfl), if_pos hc, skipExpression_of_end (byteAt?_of_end (by omega)),
      length_bytes, ← hend]
    rfl
  | case3 depth c q hc d cs =>
    rename_i ih
    obtain rfl := beq_iff_eq.mp hc
    have hd : StandsAt text (n + 1) (d :: cs) := h.tail
    -- Only the first byte of the character after a backslash is passed over with it.
    have hnext : skipExpression (bytes text) depth (some q) (n + 2) =
        skipExpression (bytes text) depth (some q) (n + 1 + d.utf8Size) := by
      by_cases hlong : 0x80 ≤ d.toNat
      · exact skipExpression_long hd hlong depth hquote d.utf8Size_pos
      · rw [utf8Size_eq_one_iff.mpr (not_le.mp hlong)]
    have hsize : '\\'.utf8Size = 1 := by decide
    rw [skipExpression_quoted h (hquote q rfl), if_pos hc, hnext, ih hd.tail hquote, byteLength_cons,
      byteLength_cons, hsize]
    omega
  | case4 depth c cs q hc =>
    rename_i ih
    rw [skipExpression_quoted h (hquote q rfl), if_neg hc, ih h.tail, byteLength_cons, Nat.add_assoc]
    intro r hr
    split_ifs at hr
    exact hquote r hr
  | case5 depth c cs hc =>
    rw [skipExpression_plain h, if_pos hc]
    obtain rfl := beq_iff_eq.mp (Bool.and_eq_true_iff.mp hc).1
    rfl
  | case6 depth c cs hc _ inside rest hcut =>
    rename_i ih
    rw [skipExpression_plain h, if_neg hc, ih h.tail, hcut, byteLength_cons, Nat.add_assoc]
    intro r hr
    split_ifs at hr with hq
    obtain rfl := Option.some.inj hr
    by_contra hlong
    rw [isQuote_of_long (not_lt.mp hlong)] at hq
    cases hq

section

variable {text : List Char}

/-- A byte that ends a name but no tag is an equals sign. -/
theorem exists_stray_of_byteAt? {cs : List Char} {pos : Nat} {c : Char} (h : StandsAt text pos cs)
    (hblank : ∀ d, cs.head? = some d → isAsciiBlank d = false) (hb : byteAt? (bytes text) pos = some c)
    (hclose : ¬ c == '>') (hslash : ¬ c == '/')
    (hstray : skipWhile (!endsAttributeName ·) (bytes text) pos == pos) : ∃ more, cs = '=' :: more := by
  obtain ⟨d, more, rfl, hcd⟩ := exists_alike_of_byteAt? h hb
  have hd : endsAttributeName d := by
    by_contra hd
    rw [skipWhile_bytes plain_endsAttributeName.not h, List.takeWhile_cons_of_pos (by simpa using hd),
      byteLength_cons] at hstray
    have hpos := d.utf8Size_pos
    simp only [beq_iff_eq] at hstray
    omega
  simp only [endsAttributeName, hblank d rfl, Bool.false_or, Bool.or_eq_true] at hd
  rcases hd with (heq | hd) | hd
  · exact ⟨more, by rw [beq_iff_eq.mp heq]⟩
  · exact absurd ((plain_beq (by decide) c d hcd).trans hd) hclose
  · exact absurd ((plain_beq (by decide) c d hcd).trans hd) hslash

/-- What a name is, where its first byte is no brace. -/
theorem exists_name_of_byteAt? {cs : List Char} {pos : Nat} {c : Char} (h : StandsAt text pos cs)
    (hb : byteAt? (bytes text) pos = some c) (hbrace : ¬ c == '\x7b')
    (hname : ¬ skipWhile (!endsAttributeName ·) (bytes text) pos == pos) : ∃ d more, cs = d :: more ∧
      endsAttributeName d = false ∧ d ≠ '\x7b' ∧
      slice text pos (skipWhile (!endsAttributeName ·) (bytes text) pos) =
        .ok (d :: more.takeWhile (!endsAttributeName ·)) ∧
      StandsAt text (skipWhile (!endsAttributeName ·) (bytes text) pos) (more.dropWhile (!endsAttributeName ·)) := by
  obtain ⟨d, more, rfl, hcd⟩ := exists_alike_of_byteAt? h hb
  have hskip := skipWhile_bytes plain_endsAttributeName.not h
  have hrest := standsAt_skipWhile plain_endsAttributeName.not h
  have hd : endsAttributeName d = false := by
    by_contra hd
    rw [hskip, List.takeWhile_cons_of_neg (by simpa using hd)] at hname
    exact absurd (by simp) hname
  have hbrace' : ¬ d == '\x7b' := by
    have halike : (c == '\x7b') = (d == '\x7b') := plain_beq (by decide) c d hcd
    rwa [← halike]
  refine ⟨d, more, rfl, hd, by simpa using hbrace', ?_, ?_⟩
  · rw [hskip, List.takeWhile_cons_of_pos (by simpa using hd)]
    have hstands : StandsAt text pos ((d :: more.takeWhile (!endsAttributeName ·)) ++
        more.dropWhile (!endsAttributeName ·)) := by simpa using h
    exact slice_of_standsAt hstands
  · rwa [List.dropWhile_cons_of_pos (by simpa using hd)] at hrest

section

variable {offset : Nat} {place : List Char → Nat} (hplace : TellsPlaces text offset place)
include hplace

/-- A value is cut out where it stands. -/
theorem value_bytes {cs : List Char} {n : Nat} (h : StandsAt text n cs) (hn : offset ≤ n) :
    value text n = .ok ((value? cs).map fun (v, quotes, rest) => ((v, place cs + quotes), place rest)) := by
  rw [hplace n cs h hn]
  cases cs with
  | nil =>
    rw [value, byteAt?_of_end (by simpa using h.le_byteLength.ge)]
    rfl
  | cons c more =>
    obtain ⟨b, hb, hbc⟩ := byteAt?_of_standsAt h c.utf8Size_pos
    have hquote := (plain_beq (x := '"') (by decide)).or (plain_beq (x := '\'') (by decide)) b c hbc
    have hbrace := plain_beq (x := '\x7b') (by decide) b c hbc
    simp only [value, value?, Nat.add_zero] at hb ⊢
    simp only [hb, hquote, hbrace]
    split_ifs with hq hopen
    · have hascii : c.toNat < 0x80 := by
        simp only [Bool.or_eq_true, beq_iff_eq] at hq
        rcases hq with rfl | rfl <;> decide
      obtain rfl : c = b := Option.some.inj ((byteAt?_of_ascii h hascii).symm.trans hb)
      have hsize := utf8Size_eq_one_iff.mpr hascii
      have hmore : StandsAt text (n + 1) more := hsize ▸ h.tail
      simp only [slice_to_end_eq_ok_iff.mpr hmore]
      cases hcut : cutAt? c more with
      | none => rfl
      | some p =>
        obtain ⟨inside, after⟩ := p
        rw [(cutAt?_eq_some_iff.mp hcut).2] at hmore
        simp only [slice_of_standsAt hmore, Option.map_some, Except.map]
        rw [hplace _ _ hmore.append.tail (by omega), hsize]
    · have hstop := skipExpression_bytes h 0 none (by simp)
      rw [← cutExpression_append 0 none (c :: more)] at h
      simp only [hstop, slice_of_standsAt h, Option.map_some, Except.map]
      rw [hplace _ _ h.append (by omega), Nat.add_zero]
    · have hstop := skipWhile_bytes plain_endsBareValue.not h
      have hrest := h.dropWhile (!endsBareValue ·)
      rw [← List.takeWhile_append_dropWhile (p := (!endsBareValue ·)) (l := c :: more)] at h
      simp only [hstop, slice_of_standsAt h, Option.map_some, Except.map]
      rw [hplace _ _ hrest (by omega), Nat.add_zero]

theorem attributeValue_bytes {cs : List Char} {n : Nat} (h : StandsAt text n cs) (hn : offset ≤ n) :
    attributeValue text n = .ok ((attributeValue? place cs).map fun (v, rest) => (v, place rest)) := by
  have hequals := h.dropWhile isAsciiBlank
  simp only [attributeValue, attributeValue?, skipWhile_bytes plain_isAsciiBlank h]
  split
  · next heq =>
    obtain ⟨more, hmore⟩ := exists_cons_of_byteAt? hequals (beq_iff_eq.mp heq) (by decide)
    rw [hmore] at hequals
    have hmore' : StandsAt text (n + byteLength (cs.takeWhile isAsciiBlank) + 1) more := hequals.tail
    rw [skipWhile_bytes plain_isAsciiBlank hmore', value_bytes hplace (hmore'.dropWhile isAsciiBlank) (by omega),
      hmore]
    simp only [Except.map, Option.map_map]
    rfl
  · next hne =>
    split
    · next more hmore =>
      rw [hmore] at hequals
      exact absurd (beq_iff_eq.mpr (byteAt?_of_ascii hequals (by decide))) hne
    · rw [Option.map_some, hplace n cs h hn]

/-- Attributes are read alike, or not at all, from any place on. -/
theorem attributes_bytes {cs : List Char} {n : Nat} (h : StandsAt text n cs) (hn : offset ≤ n) :
    attributes text n = .ok ((attributes? place cs).map fun (as, rest) => (as, place rest)) := by
  have hblanks {n : Nat} {cs : List Char} (h : StandsAt text n cs) (hn : offset ≤ n) :
      StandsAt text (skipWhile isAsciiBlank (bytes text) n) (cs.dropWhile isAsciiBlank) ∧
        offset ≤ skipWhile isAsciiBlank (bytes text) n :=
    ⟨standsAt_skipWhile plain_isAsciiBlank h, hn.trans (le_skipWhile ..)⟩
  fun_induction attributes text n generalizing cs with
  | case1 start pos =>
    rename_i hb
    obtain ⟨hpos, -⟩ := hblanks h hn
    rw [attributes?_eq, eq_nil_of_byteAt? hpos hb]
    rfl
  | case2 start pos c hb =>
    rename_i hc
    obtain ⟨hpos, hle⟩ := hblanks h hn
    obtain rfl := beq_iff_eq.mp hc
    obtain ⟨more, hcs⟩ := exists_cons_of_byteAt? hpos hb (by decide)
    rw [hcs] at hpos
    have hstep : attributes? place cs = some ([], more) := by rw [attributes?_eq, hcs]; rfl
    have hmore : place more = pos + 1 := hplace _ _ hpos.tail (hle.trans (Nat.le_add_right ..))
    simp only [hstep, Option.map_some, hmore]
  | case3 start pos c hb _ hc =>
    rename_i ih
    obtain ⟨hpos, hle⟩ := hblanks h hn
    obtain rfl := beq_iff_eq.mp hc
    obtain ⟨more, hcs⟩ := exists_cons_of_byteAt? hpos hb (by decide)
    rw [hcs] at hpos
    have hstep : attributes? place cs = attributes? place more := by rw [attributes?_eq, hcs]; rfl
    rw [ih hpos.tail (hle.trans (Nat.le_add_right ..)), hstep]
  | case4 start pos c hb _ _ hc =>
    rename_i ih
    obtain ⟨hpos, hle⟩ := hblanks h hn
    obtain rfl := beq_iff_eq.mp hc
    obtain ⟨more, hcs⟩ := exists_cons_of_byteAt? hpos hb (by decide)
    rw [hcs] at hpos
    have hstep : attributes? place cs = attributes? place (cutExpression 0 none ('\x7b' :: more)).2 := by
      rw [attributes?_eq, hcs]
      rfl
    have hstop := skipExpression_bytes hpos 0 none (by simp)
    have hlt := lt_skipExpression (lt_of_byteAt? hb) 0 none
    rw [← cutExpression_append 0 none ('\x7b' :: more)] at hpos
    rw [ih (hstop ▸ hpos.append) (hle.trans hlt.le), hstep]
  | case5 start pos c hb hclose hslash _ stop hstray =>
    rename_i ih
    obtain ⟨hpos, hle⟩ := hblanks h hn
    obtain ⟨more, hcs⟩ := exists_stray_of_byteAt? hpos (fun c hc => head?_dropWhile_of_some hc) hb hclose hslash
      hstray
    rw [hcs] at hpos
    have hstep : attributes? place cs = attributes? place more := by rw [attributes?_eq, hcs]; rfl
    rw [ih hpos.tail (hle.trans (Nat.le_add_right ..)), hstep]
  | case6 start pos c hb _ _ hbrace stop hname cut =>
    rename_i hcut
    obtain ⟨d, more, -, -, -, hslice, -⟩ := exists_name_of_byteAt? (hblanks h hn).1 hb hbrace hname
    cases hcut.symm.trans hslice
  | case7 start pos c hb _ _ hbrace stop hname name hcut cut =>
    rename_i hv
    obtain ⟨hpos, hle⟩ := hblanks h hn
    obtain ⟨d, more, -, -, -, -, hrest⟩ := exists_name_of_byteAt? hpos hb hbrace hname
    cases hv.symm.trans (attributeValue_bytes hplace hrest (hle.trans (le_skipWhile ..)))
  | case8 start pos c hb _ _ hbrace stop hname name hcut =>
    rename_i hv
    obtain ⟨hpos, hle⟩ := hblanks h hn
    obtain ⟨d, more, hcs, hd, hd', -, hrest⟩ := exists_name_of_byteAt? hpos hb hbrace hname
    have hread := hv.symm.trans (attributeValue_bytes hplace hrest (hle.trans (le_skipWhile ..)))
    have hnone := Option.map_eq_none_iff.mp (Except.ok.inj hread).symm
    rw [attributes?_of_name place hcs hd hd', hnone]
    rfl
  | case9 start pos c hb _ _ hbrace stop hname name hcut value last hv =>
    rename_i ih
    obtain ⟨hpos, hle⟩ := hblanks h hn
    obtain ⟨d, more, hcs, hd, hd', hslice, hrest⟩ := exists_name_of_byteAt? hpos hb hbrace hname
    have hle' : offset ≤ stop := hle.trans (le_skipWhile ..)
    have hread := hv.symm.trans (attributeValue_bytes hplace hrest hle')
    obtain ⟨⟨v, rest⟩, hvalue, hp⟩ := Option.map_eq_some_iff.mp (Except.ok.inj hread).symm
    obtain ⟨rfl, hlast⟩ := Prod.mk.inj hp
    -- What comes after the value is a rest of the text, and the value tells where.
    obtain ⟨front, hfront⟩ := attributeValue?_suffix hvalue
    rw [← hfront] at hrest
    have hle'' := hle'.trans (Nat.le_add_right stop (byteLength front))
    obtain rfl : _ = last := (hplace _ _ hrest.append hle'').symm.trans hlast
    obtain rfl : name = _ := Except.ok.inj (hcut.symm.trans hslice)
    rw [hcs] at hpos
    rw [ih hrest.append hle'', attributes?_of_name place hcs hd hd', hvalue, hplace _ _ hpos hle]
    simp only [Except.map, Option.bind_some, Option.map_map]
    rfl

end

theorem tag_bytes {rest : List Char} {n : Nat} (h : StandsAt text n ('<' :: rest)) :
    tag text n = .ok (tagAt? ('<' :: rest) n) := by
  have hplace := tellsPlaces_placeFrom h
  have hname : StandsAt text (n + 1) rest := h.tail
  cases rest with
  | nil =>
    rw [tag, byteAt?_of_end (by simpa using hname.le_byteLength.ge)]
    rfl
  | cons c more =>
    obtain ⟨b, hb, hbc⟩ := byteAt?_of_standsAt hname c.utf8Size_pos
    rw [Nat.add_zero] at hb
    have hskip := standsAt_skipWhile plain_isTagNameChar hname
    have hle := le_skipWhile isTagNameChar (bytes text) (n + 1)
    have hslice : slice text (n + 1) (skipWhile isTagNameChar (bytes text) (n + 1)) =
        .ok ((c :: more).takeWhile isTagNameChar) := by
      rw [skipWhile_bytes plain_isTagNameChar hname]
      rw [← List.takeWhile_append_dropWhile (p := isTagNameChar) (l := c :: more)] at hname
      exact slice_of_standsAt hname
    simp only [tag, hb, plain_isAsciiLetter b c hbc, attributes_bytes hplace hskip (by omega), tagAt?_cons]
    split_ifs with hc
    · cases attributes? (placeFrom n (byteLength ('<' :: c :: more))) ((c :: more).dropWhile isTagNameChar) with
      | none => rfl
      | some p =>
        simp only [Option.map_some, hslice, Except.map]
    · rfl

end

/-- No tag starts where there is no tag opener. -/
theorem tagsFrom_append {front : List Char} (h : '<' ∉ front) (skipped : List Span) (cs : List Char) (n : Nat) :
    tagsFrom skipped 0 (front ++ cs) n = tagsFrom skipped 0 cs (n + byteLength front) := by
  rw [tagsFrom_eq_scanFrom, tagsFrom_eq_scanFrom]
  refine scanFrom_append (fun c hc cs offset => tagAt?_of_ne ?_ cs offset) 0 cs n
  rintro rfl
  exact h hc

theorem tagsFrom_of_cutAt?_eq_none {cs : List Char} (h : cutAt? '<' cs = none) (skipped : List Span) (n : Nat) :
    tagsFrom skipped 0 cs n = [] := by
  have hcs : '<' ∉ cs := by
    intro hmem
    obtain ⟨before, rest, rfl, hbefore⟩ := List.eq_append_cons_of_mem hmem
    cases h.symm.trans (cutAt?_eq_some_iff.mpr ⟨hbefore, rfl⟩)
  rw [← List.append_nil cs, tagsFrom_append hcs]
  rfl

/-- After a tag the search goes on where the tag ends. -/
theorem tagsFrom_of_taken (skipped : List Span) {text rest after : List Char} {n stop : Nat}
    (h : StandsAt text n rest) (hafter : StandsAt text stop after) (hle : n ≤ stop) :
    tagsFrom skipped stop rest n = tagsFrom skipped 0 after stop := by
  obtain ⟨between, rfl, rfl⟩ := h.exists_between hafter hle
  rw [tagsFrom_eq_scanFrom, tagsFrom_eq_scanFrom, scanFrom_append_of_taken le_rfl]
  exact scanFrom_of_le le_rfl (Nat.zero_le _) after

/-- No cut is made off a boundary or past the end, and the same tags are found. -/
theorem tags_bytes {skipped : List Span} {text cs : List Char} {n : Nat} (h : StandsAt text n cs) :
    tags skipped text n = .ok (tagsFrom skipped 0 cs n) := by
  fun_induction tags skipped text n generalizing cs with
  | case1 pos cut hcut => cases hcut.symm.trans (slice_to_end_eq_ok_iff.mpr h)
  | case2 pos rest hrest hcut =>
    obtain rfl := h.eq (slice_to_end_eq_ok_iff.mp hrest)
    rw [tagsFrom_of_cutAt?_eq_none hcut]
  | case3 pos rest hrest before after hcut start hskip =>
    rename_i ih
    obtain rfl := h.eq (slice_to_end_eq_ok_iff.mp hrest)
    obtain ⟨hbefore, rfl⟩ := cutAt?_eq_some_iff.mp hcut
    have hopen : StandsAt text start ('<' :: after) := h.append
    rw [ih hopen.tail, tagsFrom_append hbefore, tagsFrom, hskip, Bool.or_true, if_pos rfl]
    rfl
  | case4 pos rest hrest before after hcut start _ cut =>
    rename_i htag
    obtain rfl := h.eq (slice_to_end_eq_ok_iff.mp hrest)
    obtain ⟨-, rfl⟩ := cutAt?_eq_some_iff.mp hcut
    have hopen : StandsAt text start ('<' :: after) := h.append
    cases htag.symm.trans (tag_bytes hopen)
  | case5 pos rest hrest before after hcut start hskip htag =>
    rename_i ih
    obtain rfl := h.eq (slice_to_end_eq_ok_iff.mp hrest)
    obtain ⟨hbefore, rfl⟩ := cutAt?_eq_some_iff.mp hcut
    have hopen : StandsAt text start ('<' :: after) := h.append
    have hnone : tagAt? ('<' :: after) start = none := Except.ok.inj ((tag_bytes hopen).symm.trans htag)
    rw [ih hopen.tail, tagsFrom_append hbefore, tagsFrom, hnone, ite_self]
    rfl
  | case6 pos rest hrest before after hcut start hskip found stop htag =>
    rename_i ih
    obtain rfl := h.eq (slice_to_end_eq_ok_iff.mp hrest)
    obtain ⟨hbefore, rfl⟩ := cutAt?_eq_some_iff.mp hcut
    have hopen : StandsAt text start ('<' :: after) := h.append
    have hfound : tagAt? ('<' :: after) start = some (found, stop) := Except.ok.inj ((tag_bytes hopen).symm.trans htag)
    obtain ⟨last, hlast⟩ := (Tag.standsIn_of_tagAt? hopen hfound).2.closes
    have hnext := tagsFrom_of_taken skipped hopen.tail hlast (lt_of_tag htag)
    rw [ih hlast, tagsFrom_append hbefore, tagsFrom, hfound, if_neg (by simpa using hskip), ← hnext]
    rfl

end ComponentDoc.Component.Bytewise
