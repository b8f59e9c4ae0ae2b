import ComponentDoc.Proofs.Component.Tags

namespace ComponentDoc.Component

open Text

/-- The inside of a literal in quotes; a backslash takes the next character with it. -/
inductive LiteralBody (quote : Char) : List Char → Prop
  | nil : LiteralBody quote []
  | plain {c : Char} {cs : List Char} (hquote : c ≠ quote) (hescape : c ≠ '\\')
      (rest : LiteralBody quote cs) : LiteralBody quote (c :: cs)
  | escaped {c : Char} {cs : List Char} (rest : LiteralBody quote cs) : LiteralBody quote ('\\' :: c :: cs)

/-- A text with balanced braces. A quote opens a literal, and the braces in it do not count. -/
inductive Balanced : List Char → Prop
  | nil : Balanced []
  | plain {c : Char} (hquote : c ≠ '"' ∧ c ≠ '\'' ∧ c ≠ '\x60') (hbrace : c ≠ '\x7b' ∧ c ≠ '\x7d') : Balanced [c]
  | literal {quote : Char} {body : List Char} (hquote : quote = '"' ∨ quote = '\'' ∨ quote = '\x60')
      (hbody : LiteralBody quote body) : Balanced (quote :: (body ++ [quote]))
  | braces {inside : List Char} (hinside : Balanced inside) : Balanced ('\x7b' :: (inside ++ ['\x7d']))
  | append {front rest : List Char} (hfront : Balanced front) (hrest : Balanced rest) : Balanced (front ++ rest)

/-- An expression in braces. -/
structure Expression where
  inside : List Char
  balanced : Balanced inside

def Expression.text (e : Expression) : List Char :=
  '\x7b' :: (e.inside ++ ['\x7d'])

/-- Blanks, perhaps none. -/
structure Blanks where
  text : List Char
  blank : ∀ c ∈ text, isAsciiBlank c

/-- At least one blank. -/
structure Gap extends Blanks where
  ne_nil : text ≠ []

structure AttributeName where
  text : List Char
  ne_nil : text ≠ []
  plain : ∀ c ∈ text, isAsciiBlank c = false ∧ c ≠ '=' ∧ c ≠ '>' ∧ c ≠ '/'
  noExpression : text.head? ≠ some '\x7b'

inductive WrittenValue where
  | quoted (quote : Char) (text : List Char) (isQuote : quote = '"' ∨ quote = '\'') (closes : quote ∉ text)
  | expression (e : Expression)
  | bare (text : List Char) (ne_nil : text ≠ []) (plain : ∀ c ∈ text, isAsciiBlank c = false ∧ c ≠ '>')
      (isBare : ∀ c, text.head? = some c → c ≠ '"' ∧ c ≠ '\'' ∧ c ≠ '\x7b')

inductive WrittenAttribute where
  | named (name : AttributeName)
  | assigned (name : AttributeName) (before after : Blanks) (value : WrittenValue)
  /-- An expression in place of an attribute. -/
  | expression (e : Expression)

structure WrittenTag where
  first : Char
  more : List Char
  letter : isAsciiLetter first
  plain : ∀ c ∈ more, isAsciiAlnum c ∨ c = '_' ∨ c = ':' ∨ c = '.' ∨ c = '-'
  attributes : List (Gap × WrittenAttribute)
  isSelfClosing : Bool

namespace WrittenValue

def text : WrittenValue → List Char
  | quoted quote text _ _ => quote :: (text ++ [quote])
  | expression e => e.text
  | bare text _ _ _ => text

/-- The value without its quotes. -/
def content : WrittenValue → List Char
  | quoted _ text _ _ => text
  | expression e => e.text
  | bare text _ _ _ => text

/-- How many bytes come before the content. -/
def quotes : WrittenValue → Nat
  | quoted .. => 1
  | _ => 0

end WrittenValue

namespace WrittenAttribute

def text : WrittenAttribute → List Char
  | named name => name.text
  | assigned name before after value => name.text ++ before.text ++ '=' :: (after.text ++ value.text)
  | expression e => e.text

/-- The attribute that starts at an offset; an expression is none. -/
def at? (offset : Nat) : WrittenAttribute → Option Attribute
  | named name => some ⟨name.text, offset, none⟩
  | assigned name before after value =>
    some ⟨name.text, offset, some (value.content,
      offset + byteLength name.text + byteLength before.text + 1 + byteLength after.text + value.quotes)⟩
  | expression _ => none

/-- The text of attributes, each behind its gap. -/
def texts : List (Gap × WrittenAttribute) → List Char
  | [] => []
  | (gap, a) :: rest => gap.text ++ a.text ++ texts rest

/-- The attributes in a text that starts at an offset. -/
def placed (offset : Nat) : List (Gap × WrittenAttribute) → List Attribute
  | [] => []
  | (gap, a) :: rest => (a.at? (offset + byteLength gap.text)).toList ++
      placed (offset + byteLength gap.text + byteLength a.text) rest

end WrittenAttribute

namespace WrittenTag

def name (tag : WrittenTag) : List Char :=
  tag.first :: tag.more

def close (tag : WrittenTag) : List Char :=
  if tag.isSelfClosing then [' ', '/', '>'] else ['>']

def text (tag : WrittenTag) : List Char :=
  '<' :: (tag.name ++ (WrittenAttribute.texts tag.attributes ++ tag.close))

/-- The tag as it is read where it starts at an offset. -/
def placed (tag : WrittenTag) (offset : Nat) : Tag :=
  ⟨tag.name, offset, WrittenAttribute.placed (offset + 1 + byteLength tag.name) tag.attributes⟩

end WrittenTag

theorem cutExpression_cons_of_ne {quote c : Char} (hc : c ≠ '\\') (depth : Nat) (cs : List Char) :
    cutExpression depth (some quote) (c :: cs) =
      (c :: (cutExpression depth (if c == quote then none else some quote) cs).1,
        (cutExpression depth (if c == quote then none else some quote) cs).2) := by
  conv_lhs => unfold cutExpression
  simp only [beq_iff_eq, hc, if_false]

theorem cutExpression_literalBody {quote : Char} {body : List Char} (h : LiteralBody quote body)
    (depth : Nat) (rest : List Char) (hquote : quote ≠ '\\') :
    cutExpression depth (some quote) (body ++ quote :: rest) =
      (body ++ quote :: (cutExpression depth none rest).1, (cutExpression depth none rest).2) := by
  induction h with
  | nil => simp [cutExpression_cons_of_ne hquote]
  | plain hne hescape _ ih => simp [cutExpression_cons_of_ne hescape, hne, ih]
  | escaped _ ih => simp [cutExpression, ih]

/-- A balanced text is passed over at any depth inside an expression. -/
theorem cutExpression_balanced {inside : List Char} (h : Balanced inside) {depth : Nat} (hdepth : 0 < depth)
    (rest : List Char) : cutExpression depth none (inside ++ rest) =
      (inside ++ (cutExpression depth none rest).1, (cutExpression depth none rest).2) := by
  induction h generalizing depth rest with
  | nil => rfl
  | plain hquote hbrace => simp [cutExpression, isQuote, hquote, hbrace]
  | @literal quote body hquote hbody =>
    have hescape : quote ≠ '\\' := by rcases hquote with rfl | rfl | rfl <;> decide
    have hread := cutExpression_literalBody hbody depth rest hescape
    rcases hquote with rfl | rfl | rfl <;> simp [cutExpression, isQuote, hread]
  | braces _ ih =>
    have hclose : Nat.ble (depth + 1) 1 = false := by
      rw [Bool.eq_false_iff, Ne, Nat.ble_eq]
      omega
    simp [cutExpression, isQuote, ih (Nat.succ_pos depth), hclose]
  | append _ _ ihfront ihrest => simp [ihfront hdepth, ihrest hdepth]

theorem cutExpression_text (e : Expression) (rest : List Char) :
    cutExpression 0 none (e.text ++ rest) = (e.text, rest) := by
  have hread := cutExpression_balanced e.balanced Nat.one_pos ('\x7d' :: rest)
  simp [Expression.text, cutExpression, isQuote] at hread ⊢
  simp [hread]

/-- What may come after an attribute: a blank or the end of the tag, and behind the blanks no equals sign. -/
structure Ends (rest : List Char) : Prop where
  head : ∀ c, rest.head? = some c → isAsciiBlank c ∨ c = '>'
  unassigned : (rest.dropWhile isAsciiBlank).head? ≠ some '='

theorem value?_text (value : WrittenValue) {rest : List Char}
    (hrest : ∀ c, rest.head? = some c → isAsciiBlank c ∨ c = '>') :
    value? (value.text ++ rest) = some (value.content, value.quotes, rest) := by
  cases value with
  | quoted quote text isQuote closes =>
    have hcut : cutAt? quote (text ++ quote :: rest) = some (text, rest) :=
      cutAt?_eq_some_iff.mpr ⟨closes, rfl⟩
    have htest : (quote == '"' || quote == '\'') = true := by simpa using isQuote
    simp [WrittenValue.text, WrittenValue.content, WrittenValue.quotes, value?, htest, hcut]
  | expression e =>
    have hread := cutExpression_text e rest
    have hquote : ('\x7b' == '"' || '\x7b' == '\'') = false := by decide
    simp only [WrittenValue.text, WrittenValue.content, WrittenValue.quotes, Expression.text,
      List.cons_append] at hread ⊢
    simp only [value?, hquote, hread, beq_self_eq_true, if_true, Bool.false_eq_true, if_false]
  | bare text ne_nil plain isBare =>
    have hbody : ∀ c ∈ text, (!endsBareValue c) = true := by
      intro c hc
      simpa [endsBareValue] using plain c hc
    have hend : ∀ c, rest.head? = some c → (!endsBareValue c) = false := by
      intro c hc
      rcases hrest c hc with hblank | rfl
      · simp [endsBareValue, hblank]
      · decide
    have htake := takeWhile_append_of_head hbody hend
    have hdrop := dropWhile_append_of_head hbody hend
    obtain ⟨c, more, rfl⟩ := List.exists_cons_of_ne_nil ne_nil
    have hc := isBare c rfl
    simp only [WrittenValue.text, WrittenValue.content, WrittenValue.quotes, List.cons_append] at htake hdrop ⊢
    simp only [value?, beq_iff_eq, hc, Bool.or_eq_true, or_self, if_false, htake, hdrop]

theorem dropWhile_blanks (blanks : Blanks) {rest : List Char}
    (hrest : ∀ c, rest.head? = some c → isAsciiBlank c = false) :
    (blanks.text ++ rest).dropWhile isAsciiBlank = rest :=
  dropWhile_append_of_head blanks.blank hrest

/-- A value starts with no blank. -/
theorem WrittenValue.head_text (value : WrittenValue) {rest : List Char} {c : Char}
    (h : (value.text ++ rest).head? = some c) : isAsciiBlank c = false := by
  cases value with
  | quoted quote text isQuote closes =>
    obtain rfl : quote = c := by simpa [WrittenValue.text] using h
    rcases isQuote with rfl | rfl <;> decide
  | expression e =>
    obtain rfl : '\x7b' = c := by simpa [WrittenValue.text, Expression.text] using h
    decide
  | bare text ne_nil plain isBare =>
    obtain ⟨d, more, rfl⟩ := List.exists_cons_of_ne_nil ne_nil
    obtain rfl : d = c := by simpa [WrittenValue.text] using h
    exact (plain d List.mem_cons_self).1

/-- The value of an attribute that has one, and where its content starts. -/
theorem attributeValue?_text (place : List Char → Nat) (before after : Blanks) (value : WrittenValue)
    {rest : List Char} (hrest : ∀ c, rest.head? = some c → isAsciiBlank c ∨ c = '>') :
    attributeValue? place (before.text ++ '=' :: (after.text ++ (value.text ++ rest))) =
      some (some (value.content, place (value.text ++ rest) + value.quotes), rest) := by
  have hbefore : (before.text ++ '=' :: (after.text ++ (value.text ++ rest))).dropWhile isAsciiBlank =
      '=' :: (after.text ++ (value.text ++ rest)) :=
    dropWhile_blanks before fun c hc => by
      obtain rfl : '=' = c := by simpa using hc
      decide
  have hafter : (after.text ++ (value.text ++ rest)).dropWhile isAsciiBlank = value.text ++ rest :=
    dropWhile_blanks after fun c hc => value.head_text hc
  unfold attributeValue?
  simp only [hbefore, hafter, value?_text value hrest, Option.map_some]

theorem attributeValue?_of_ends (place : List Char → Nat) {rest : List Char} (hrest : Ends rest) :
    attributeValue? place rest = some (none, rest) := by
  have hne := hrest.unassigned
  unfold attributeValue?
  split
  · next heq => simp [heq] at hne
  · rfl

theorem attributes?_blanks (place : List Char → Nat) (blanks : Blanks) {rest : List Char}
    (hrest : ∀ c, rest.head? = some c → isAsciiBlank c = false) :
    attributes? place (blanks.text ++ rest) = attributes? place rest := by
  have hdrop : rest.dropWhile isAsciiBlank = rest := by
    cases rest with
    | nil => rfl
    | cons c rest => simp [hrest c rfl]
  rw [attributes?_eq, dropWhile_blanks blanks hrest, attributes?_eq place rest, hdrop]

/-- Reading an attribute by its name. -/
theorem attributes?_name (place : List Char → Nat) (name : AttributeName) {rest : List Char}
    (hrest : ∀ c, rest.head? = some c → endsAttributeName c) :
    attributes? place (name.text ++ rest) = (attributeValue? place rest).bind fun (value, rest') =>
      (attributes? place rest').map fun (others, after) =>
        (⟨name.text, place (name.text ++ rest), value⟩ :: others, after) := by
  have hbody : ∀ c ∈ name.text, (!endsAttributeName c) = true := by
    intro c hc
    have hplain := name.plain c hc
    simp [endsAttributeName, hplain]
  have hend : ∀ c, rest.head? = some c → (!endsAttributeName c) = false := by
    intro c hc
    simp [hrest c hc]
  have htake := takeWhile_append_of_head hbody hend
  have hdrop := dropWhile_append_of_head hbody hend
  obtain ⟨c, more, hname⟩ := List.exists_cons_of_ne_nil name.ne_nil
  have hc := name.plain c (by simp [hname])
  have hbrace : c ≠ '\x7b' := by
    intro h
    exact name.noExpression (by simp [hname, h])
  simp only [hname, List.cons_append] at htake hdrop ⊢
  have hfirst : endsAttributeName c = false := by simp [endsAttributeName, hc]
  rw [List.takeWhile_cons_of_pos (by simp [hfirst])] at htake
  rw [List.dropWhile_cons_of_pos (by simp [hfirst])] at hdrop
  rw [attributes?_of_name place (List.dropWhile_cons_of_neg (by simp [hc])) hfirst hbrace, htake, hdrop]

/-- The first character of an attribute. -/
theorem WrittenAttribute.head_text (a : WrittenAttribute) {rest : List Char} {c : Char}
    (h : (a.text ++ rest).head? = some c) : isAsciiBlank c = false ∧ c ≠ '=' := by
  have hname (name : AttributeName) {more : List Char} (h : (name.text ++ more).head? = some c) :
      isAsciiBlank c = false ∧ c ≠ '=' := by
    obtain ⟨d, tail, htext⟩ := List.exists_cons_of_ne_nil name.ne_nil
    obtain rfl : d = c := by simpa [htext] using h
    have hplain := name.plain d (by simp [htext])
    exact ⟨hplain.1, hplain.2.1⟩
  cases a with
  | named name => exact hname name h
  | assigned name before after value =>
    simp only [text, List.append_assoc] at h
    exact hname name h
  | expression e =>
    obtain rfl : '\x7b' = c := by simpa [text, Expression.text] using h
    decide

theorem placeFrom_append (offset : Nat) {total : Nat} {piece rest : List Char}
    (h : byteLength (piece ++ rest) ≤ total) :
    placeFrom offset total rest = placeFrom offset total (piece ++ rest) + byteLength piece := by
  unfold placeFrom
  rw [byteLength_append] at h ⊢
  omega

/-- One attribute: it is read as it was written, and reading goes on behind it. -/
theorem attributes?_step (offset : Nat) {total : Nat} (gap : Gap) (a : WrittenAttribute) {rest : List Char}
    (hrest : Ends rest) (hle : byteLength (gap.text ++ (a.text ++ rest)) ≤ total) :
    attributes? (placeFrom offset total) (gap.text ++ (a.text ++ rest)) =
      (attributes? (placeFrom offset total) rest).map fun (others, after) =>
        ((a.at? (placeFrom offset total (gap.text ++ (a.text ++ rest)) + byteLength gap.text)).toList ++ others,
          after) := by
  rw [attributes?_blanks _ gap.toBlanks fun c hc => (a.head_text hc).1, ← placeFrom_append offset hle]
  have hle' : byteLength (a.text ++ rest) ≤ total := by
    rw [byteLength_append] at hle
    omega
  cases a with
  | named name =>
    have hend : ∀ c, rest.head? = some c → endsAttributeName c := by
      intro c hc
      rcases hrest.head c hc with hblank | rfl
      · simp [endsAttributeName, hblank]
      · decide
    simp only [WrittenAttribute.text, WrittenAttribute.at?] at hle' ⊢
    rw [attributes?_name _ name hend, attributeValue?_of_ends _ hrest]
    rfl
  | assigned name before after value =>
    have hend : ∀ c, (before.text ++ '=' :: (after.text ++ (value.text ++ rest))).head? = some c →
        endsAttributeName c := by
      intro c hc
      cases hb : before.text with
      | nil =>
        obtain rfl : '=' = c := by simpa [hb] using hc
        decide
      | cons d ds =>
        obtain rfl : d = c := by simpa [hb] using hc
        have hblank := before.blank d (by simp [hb])
        simp [endsAttributeName, hblank]
    simp only [WrittenAttribute.text, WrittenAttribute.at?, List.append_assoc, List.cons_append] at hle' ⊢
    -- The content stands behind the name, the blanks, the equals sign and the quote.
    have hcontent : placeFrom offset total (value.text ++ rest) =
        placeFrom offset total (name.text ++ (before.text ++ '=' :: (after.text ++ (value.text ++ rest)))) +
          byteLength name.text + byteLength before.text + 1 + byteLength after.text := by
      have hequals : '='.utf8Size = 1 := by decide
      unfold placeFrom
      simp only [byteLength_append, byteLength_cons, hequals] at hle' ⊢
      omega
    rw [attributes?_name _ name hend, attributeValue?_text _ before after value hrest.head, hcontent]
    rfl
  | expression e =>
    have hread := cutExpression_text e rest
    simp only [WrittenAttribute.text, WrittenAttribute.at?, Expression.text, List.cons_append] at hread ⊢
    rw [attributes?_eq, List.dropWhile_cons_of_neg (by decide)]
    simp only [hread, Option.toList_none, List.nil_append]
    cases attributes? (placeFrom offset total) rest <;> rfl

theorem attributes?_close (place : List Char → Nat) (tag : WrittenTag) (after : List Char) :
    attributes? place (tag.close ++ after) = some ([], after) := by
  have hend : attributes? place ('>' :: after) = some ([], after) := by
    rw [attributes?_eq, List.dropWhile_cons_of_neg (by decide)]
    rfl
  unfold WrittenTag.close
  split
  · change attributes? place (' ' :: '/' :: '>' :: after) = _
    rw [attributes?_eq, List.dropWhile_cons_of_pos (by decide), List.dropWhile_cons_of_neg (by decide)]
    exact hend
  · exact hend

/-- After each attribute comes the gap of the next one or the end of the tag. -/
theorem ends_texts (attributes : List (Gap × WrittenAttribute)) (tag : WrittenTag) (after : List Char) :
    Ends (WrittenAttribute.texts attributes ++ (tag.close ++ after)) := by
  cases attributes with
  | nil =>
    unfold WrittenTag.close
    split
    · constructor
      · intro c hc
        obtain rfl : ' ' = c := by simpa [WrittenAttribute.texts] using hc
        exact .inl (by decide)
      · change ((' ' :: '/' :: '>' :: after).dropWhile isAsciiBlank).head? ≠ some '='
        rw [List.dropWhile_cons_of_pos (by decide), List.dropWhile_cons_of_neg (by decide)]
        simp
    · constructor
      · intro c hc
        obtain rfl : '>' = c := by simpa [WrittenAttribute.texts] using hc
        exact .inr rfl
      · change (('>' :: after).dropWhile isAsciiBlank).head? ≠ some '='
        rw [List.dropWhile_cons_of_neg (by decide)]
        simp
  | cons first others =>
    obtain ⟨gap, a⟩ := first
    simp only [WrittenAttribute.texts, List.append_assoc]
    constructor
    · intro c hc
      obtain ⟨d, ds, hgap⟩ := List.exists_cons_of_ne_nil gap.ne_nil
      obtain rfl : d = c := by simpa [hgap] using hc
      exact .inl (gap.blank d (by simp [hgap]))
    · rw [dropWhile_blanks gap.toBlanks fun c hc => (a.head_text hc).1]
      intro hequals
      exact (a.head_text hequals).2 rfl

/-- All attributes of a tag, up to its end. -/
theorem attributes?_texts (offset : Nat) {total : Nat} (attributes : List (Gap × WrittenAttribute))
    (tag : WrittenTag) (after : List Char)
    (hle : byteLength (WrittenAttribute.texts attributes ++ (tag.close ++ after)) ≤ total) :
    attributes? (placeFrom offset total) (WrittenAttribute.texts attributes ++ (tag.close ++ after)) =
      some (WrittenAttribute.placed
        (placeFrom offset total (WrittenAttribute.texts attributes ++ (tag.close ++ after))) attributes,
        after) := by
  induction attributes with
  | nil => exact attributes?_close _ tag after
  | cons first others ih =>
    obtain ⟨gap, a⟩ := first
    simp only [WrittenAttribute.texts, WrittenAttribute.placed, List.append_assoc] at hle ⊢
    have hgap := placeFrom_append offset hle
    have hle' : byteLength (a.text ++ (WrittenAttribute.texts others ++ (tag.close ++ after))) ≤ total := by
      rw [byteLength_append] at hle
      omega
    have hrest := placeFrom_append offset hle'
    have hle'' : byteLength (WrittenAttribute.texts others ++ (tag.close ++ after)) ≤ total := by
      rw [byteLength_append] at hle'
      omega
    rw [attributes?_step offset gap a (ends_texts others tag after) hle, ih hle'', hrest, hgap]
    rfl

theorem isTagNameChar_of_isAsciiBlank {c : Char} (h : isAsciiBlank c) : isTagNameChar c = false := by
  simp only [isAsciiBlank, Bool.or_eq_true, beq_iff_eq] at h
  rcases h with (((rfl | rfl) | rfl) | rfl) | rfl <;> decide

theorem tagAt?_text (tag : WrittenTag) (after : List Char) (offset : Nat) :
    tagAt? (tag.text ++ after) offset = some (tag.placed offset, offset + byteLength tag.text) := by
  let tail := WrittenAttribute.texts tag.attributes ++ (tag.close ++ after)
  have htext : tag.text ++ after = '<' :: tag.first :: (tag.more ++ tail) := by
    simp [WrittenTag.text, WrittenTag.name, tail]
  have hname : ∀ c ∈ tag.name, isTagNameChar c := by
    intro c hc
    rcases List.mem_cons.mp hc with rfl | hm
    · simp [isTagNameChar, isAsciiAlnum, tag.letter]
    · rcases tag.plain c hm with h | h | h | h | h <;> simp [isTagNameChar, h]
  have htail : ∀ c, tail.head? = some c → isTagNameChar c = false := by
    intro c hc
    rcases (ends_texts tag.attributes tag after).head c hc with hblank | rfl
    · exact isTagNameChar_of_isAsciiBlank hblank
    · decide
  have htake : (tag.first :: (tag.more ++ tail)).takeWhile isTagNameChar = tag.name :=
    takeWhile_append_of_head hname htail
  have hdrop : (tag.first :: (tag.more ++ tail)).dropWhile isTagNameChar = tail :=
    dropWhile_append_of_head hname htail
  have hsize : '<'.utf8Size = 1 := by decide
  have htotal : byteLength (tag.text ++ after) = 1 + byteLength tag.name + byteLength tail := by
    simp only [htext, byteLength_cons, byteLength_append, WrittenTag.name, hsize]
    omega
  have hle : byteLength tail ≤ byteLength (tag.text ++ after) := by omega
  have hread := attributes?_texts offset tag.attributes tag after hle
  have hstart : placeFrom offset (byteLength (tag.text ++ after)) tail = offset + 1 + byteLength tag.name := by
    unfold placeFrom
    omega
  have hstop : placeFrom offset (byteLength (tag.text ++ after)) after = offset + byteLength tag.text := by
    unfold placeFrom
    rw [byteLength_append]
    omega
  change attributes? (placeFrom offset (byteLength (tag.text ++ after))) tail = some (_, after) at hread
  rw [hstart] at hread
  rw [htext] at hread hstop ⊢
  rw [tagAt?_cons, if_pos tag.letter, htake, hdrop, hread, Option.map_some]
  exact congrArg (fun stop => some (tag.placed offset, stop)) hstop

/-- A written tag is read as it was written, whatever comes before and after it. -/
theorem tagIn?_written (before : List Char) (tag : WrittenTag) (after : List Char) :
    tagIn? (before ++ tag.text ++ after) (byteLength before) =
      some (tag.placed (byteLength before), byteLength before + byteLength tag.text) := by
  have hstands : StandsAt (before ++ tag.text ++ after) (byteLength before) (tag.text ++ after) :=
    ⟨before, List.append_assoc .., rfl⟩
  rw [tagIn?_of_standsAt hstands]
  exact tagAt?_text tag after (byteLength before)

end ComponentDoc.Component
