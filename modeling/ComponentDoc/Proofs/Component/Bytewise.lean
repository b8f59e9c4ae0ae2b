import ComponentDoc.Proofs.Component.Tags
import ComponentDoc.Proofs.Text.Bytes
import ComponentDoc.Proofs.Sequence

/-!
Tags read by byte offsets. The text is looked at byte by byte, and every name and every value is cut out of it from
one offset to another. Such a cut fails off a character boundary and past the end of the text. Each loop is shown
to advance, so that all of them end.
-/
namespace ComponentDoc.Component.Bytewise

open Text

/-- A cut that cannot be made. -/
structure Misplaced where
  start : Nat
  stop : Nat

/-- The text between two offsets. -/
def slice (text : List Char) (start stop : Nat) : Except Misplaced (List Char) :=
  match slice? text start stop with
  | some piece => .ok piece
  | none => .error ⟨start, stop⟩

theorem slice_eq_ok_iff {text piece : List Char} {start stop : Nat} :
    slice text start stop = .ok piece ↔ ∃ rest, StandsAt text start (piece ++ rest) ∧
      start + byteLength piece = stop := by
  have hslice : slice text start stop = .ok piece ↔ slice? text start stop = some piece := by
    unfold slice
    split <;> simp_all
  rw [hslice, slice?_eq_some_iff]
  constructor
  · rintro ⟨before, after, rfl, rfl, rfl⟩
    exact ⟨after, ⟨before, by simp, rfl⟩, (byteLength_append before piece).symm⟩
  · rintro ⟨rest, ⟨before, rfl, rfl⟩, rfl⟩
    exact ⟨before, rest, by simp, rfl, byteLength_append before piece⟩

theorem slice_of_standsAt {text piece rest : List Char} {n : Nat} (h : StandsAt text n (piece ++ rest)) :
    slice text n (n + byteLength piece) = .ok piece :=
  slice_eq_ok_iff.mpr ⟨rest, h, rfl⟩

theorem le_of_slice {text piece : List Char} {start stop : Nat} (h : slice text start stop = .ok piece) :
    start ≤ stop := by
  obtain ⟨rest, -, rfl⟩ := slice_eq_ok_iff.mp h
  omega

theorem slice_to_end_eq_ok_iff {text rest : List Char} {start : Nat} :
    slice text start (byteLength text) = .ok rest ↔ StandsAt text start rest := by
  rw [slice_eq_ok_iff]
  constructor
  · rintro ⟨after, h, hstop⟩
    have hend := h.le_byteLength
    rw [byteLength_append] at hend
    obtain rfl : after = [] := by
      by_contra hne
      have hpos := byteLength_pos hne
      omega
    rwa [List.append_nil] at h
  · intro h
    exact ⟨[], by rwa [List.append_nil], h.le_byteLength⟩

theorem lt_of_cutAt?_slice {text rest before after : List Char} {pos : Nat} {d : Char}
    (h : slice text pos (byteLength text) = .ok rest) (hcut : cutAt? d rest = some (before, after)) :
    pos + byteLength before < byteLength text := by
  obtain ⟨-, rfl⟩ := cutAt?_eq_some_iff.mp hcut
  have hend := (slice_to_end_eq_ok_iff.mp h).append.le_byteLength
  have hd := d.utf8Size_pos
  rw [byteLength_cons] at hend
  omega

/-- The byte at an offset, as the character of the same number. -/
def byteAt? (text : List UInt8) (pos : Nat) : Option Char :=
  text[pos]?.map fun b => Char.ofNat b.toNat

theorem lt_of_byteAt? {text : List UInt8} {pos : Nat} {c : Char} (h : byteAt? text pos = some c) :
    pos < text.length := by
  obtain ⟨b, hb, _⟩ := Option.map_eq_some_iff.mp h
  exact (List.getElem?_eq_some_iff.mp hb).1

/-- The first offset from a place on whose byte does not have the property. -/
def skipWhile (p : Char → Bool) (text : List UInt8) (pos : Nat) : Nat :=
  match _h : byteAt? text pos with
  | some c => if p c then skipWhile p text (pos + 1) else pos
  | none => pos
termination_by text.length - pos
decreasing_by
  have := lt_of_byteAt? _h
  omega

theorem le_skipWhile (p : Char → Bool) (text : List UInt8) (pos : Nat) : pos ≤ skipWhile p text pos := by
  fun_induction skipWhile p text pos <;> omega

/-- The offset past the brace that closes an expression. -/
def skipExpression (text : List UInt8) (depth : Nat) (quote : Option Char) (pos : Nat) : Nat :=
  match _h : byteAt? text pos with
  | none => text.length
  | some c =>
    match quote with
    | some q =>
      if c == '\\' then skipExpression text depth quote (pos + 2)
      else if c == q then skipExpression text depth none (pos + 1)
      else skipExpression text depth quote (pos + 1)
    | none =>
      if isQuote c then skipExpression text depth (some c) (pos + 1)
      else if c == '\x7b' then skipExpression text (depth + 1) none (pos + 1)
      else if c == '\x7d' then
        if depth - 1 == 0 then pos + 1 else skipExpression text (depth - 1) none (pos + 1)
      else skipExpression text depth none (pos + 1)
termination_by text.length - pos
decreasing_by
  all_goals
    have := lt_of_byteAt? _h
    omega

theorem lt_skipExpression_or_eq (text : List UInt8) (depth : Nat) (quote : Option Char) (pos : Nat) :
    pos < skipExpression text depth quote pos ∨ skipExpression text depth quote pos = text.length := by
  fun_induction skipExpression text depth quote pos <;> omega

theorem lt_skipExpression {text : List UInt8} {pos : Nat} (h : pos < text.length) (depth : Nat)
    (quote : Option Char) : pos < skipExpression text depth quote pos := by
  have hstep := lt_skipExpression_or_eq text depth quote pos
  omega

/-- The value at an offset with the place of its content, and the offset past it. -/
def value (text : List Char) (start : Nat) : Except Misplaced (Option ((List Char × Nat) × Nat)) :=
  match byteAt? (bytes text) start with
  | none => .ok none
  | some c =>
    if c == '"' || c == '\'' then
      match slice text (start + 1) (byteLength text) with
      | .error cut => .error cut
      | .ok rest =>
        match cutAt? c rest with
        | none => .ok none
        | some (inside, _) =>
          let close := start + 1 + byteLength inside
          (slice text (start + 1) close).map fun value => some ((value, start + 1), close + 1)
    else
      let stop := if c == '\x7b' then skipExpression (bytes text) 0 none start
        else skipWhile (!endsBareValue ·) (bytes text) start
      (slice text start stop).map fun value => some ((value, start), stop)

theorem le_of_value {text : List Char} {start stop : Nat} {v : List Char × Nat}
    (h : value text start = .ok (some (v, stop))) : start ≤ stop := by
  unfold value at h
  split at h
  · cases h
  · split at h
    · split at h
      · cases h
      · split at h
        · cases h
        · obtain ⟨w, -, hw⟩ := map_eq_ok_iff.mp h
          obtain ⟨-, rfl⟩ := Prod.mk.inj (Option.some.inj hw)
          omega
    · obtain ⟨w, hslice, hw⟩ := map_eq_ok_iff.mp h
      obtain ⟨-, rfl⟩ := Prod.mk.inj (Option.some.inj hw)
      exact le_of_slice hslice

/-- The value of an attribute whose name ends at an offset, and the offset past it. -/
def attributeValue (text : List Char) (pos : Nat) :
    Except Misplaced (Option (Option (List Char × Nat) × Nat)) :=
  let equals := skipWhile isAsciiBlank (bytes text) pos
  if byteAt? (bytes text) equals == some '=' then
    (value text (skipWhile isAsciiBlank (bytes text) (equals + 1))).map fun read =>
      read.map fun (value, stop) => (some value, stop)
  else .ok (some (none, pos))

theorem le_of_attributeValue {text : List Char} {pos stop : Nat} {v : Option (List Char × Nat)}
    (h : attributeValue text pos = .ok (some (v, stop))) : pos ≤ stop := by
  simp only [attributeValue] at h
  split at h
  · obtain ⟨read, hvalue, hread⟩ := map_eq_ok_iff.mp h
    obtain ⟨⟨w, last⟩, rfl, hp⟩ := Option.map_eq_some_iff.mp hread
    obtain ⟨-, rfl⟩ := Prod.mk.inj hp
    have hle := le_of_value hvalue
    have hle' := le_skipWhile isAsciiBlank (bytes text) pos
    have hle'' := le_skipWhile isAsciiBlank (bytes text) (skipWhile isAsciiBlank (bytes text) pos + 1)
    omega
  · obtain ⟨-, rfl⟩ := Prod.mk.inj (Option.some.inj (Except.ok.inj h))
    exact le_rfl

/-- The attributes from an offset up to the end of their tag, and the offset past it. -/
def attributes (text : List Char) (start : Nat) : Except Misplaced (Option (List Attribute × Nat)) :=
  let pos := skipWhile isAsciiBlank (bytes text) start
  match _h : byteAt? (bytes text) pos with
  | none => .ok none
  | some c =>
    if c == '>' then .ok (some ([], pos + 1))
    else if c == '/' then attributes text (pos + 1)
    else if c == '\x7b' then attributes text (skipExpression (bytes text) 0 none pos)
    else
      let stop := skipWhile (!endsAttributeName ·) (bytes text) pos
      if stop == pos then attributes text (pos + 1)
      else
        match slice text pos stop with
        | .error cut => .error cut
        | .ok name =>
          match _hv : attributeValue text stop with
          | .error cut => .error cut
          | .ok none => .ok none
          | .ok (some (value, after)) =>
            (attributes text after).map fun read =>
              read.map fun (others, last) => (⟨name, pos, value⟩ :: others, last)
termination_by (bytes text).length - start
decreasing_by
  all_goals
    have hlt := lt_of_byteAt? _h
    have hle := le_skipWhile isAsciiBlank (bytes text) start
  · omega
  · have hlt' := lt_skipExpression hlt 0 none
    change (bytes text).length - skipExpression (bytes text) 0 none pos < _
    omega
  · omega
  · have hle' := le_skipWhile (!endsAttributeName ·) (bytes text) pos
    have hle'' := le_of_attributeValue _hv
    have : stop ≠ pos := by simpa using ‹¬ (stop == pos) = true›
    omega

theorem lt_of_attributes {text : List Char} {start stop : Nat} {as : List Attribute}
    (h : attributes text start = .ok (some (as, stop))) : start < stop := by
  fun_induction attributes text start generalizing as with
  | case1 => cases h
  | case2 start pos =>
    obtain ⟨-, rfl⟩ := Prod.mk.inj (Option.some.inj (Except.ok.inj h))
    have hle := le_skipWhile isAsciiBlank (bytes text) start
    omega
  | case3 start pos c hc _ _ =>
    rename_i ih
    have hle := le_skipWhile isAsciiBlank (bytes text) start
    have hlt := ih h
    omega
  | case4 start pos c hc _ _ _ =>
    rename_i ih
    have hle := le_skipWhile isAsciiBlank (bytes text) start
    have hlt := ih h
    have hlt' := lt_skipExpression (lt_of_byteAt? hc) 0 none
    omega
  | case5 start pos c hc _ _ _ after _ =>
    rename_i ih
    have hle := le_skipWhile isAsciiBlank (bytes text) start
    have hlt := ih h
    omega
  | case6 => cases h
  | case7 => cases h
  | case8 => cases h
  | case9 start pos c hc _ _ _ after _ name _ value last hv =>
    rename_i ih
    obtain ⟨read, hread, hp⟩ := map_eq_ok_iff.mp h
    obtain ⟨⟨others, stop'⟩, rfl, hq⟩ := Option.map_eq_some_iff.mp hp
    obtain ⟨-, rfl⟩ := Prod.mk.inj hq
    have hle := le_skipWhile isAsciiBlank (bytes text) start
    have hle' := le_skipWhile (!endsAttributeName ·) (bytes text) pos
    have hle'' := le_of_attributeValue hv
    have hlt := ih hread
    omega

/-- The tag that opens at an offset, and the offset past it. -/
def tag (text : List Char) (start : Nat) : Except Misplaced (Option (Tag × Nat)) :=
  match byteAt? (bytes text) (start + 1) with
  | none => .ok none
  | some c =>
    if isAsciiLetter c then
      let stop := skipWhile isTagNameChar (bytes text) (start + 1)
      match attributes text stop with
      | .error cut => .error cut
      | .ok none => .ok none
      | .ok (some (attributes, last)) =>
        (slice text (start + 1) stop).map fun name => some (⟨name, start, attributes⟩, last)
    else .ok none

theorem lt_of_tag {text : List Char} {start stop : Nat} {found : Tag}
    (h : tag text start = .ok (some (found, stop))) : start < stop := by
  simp only [tag] at h
  split at h
  · cases h
  · split at h
    · split at h
      · cases h
      · cases h
      · next as last hlast =>
        obtain ⟨name, -, hp⟩ := map_eq_ok_iff.mp h
        obtain ⟨-, rfl⟩ := Prod.mk.inj (Option.some.inj hp)
        have hle := le_skipWhile isTagNameChar (bytes text) (start + 1)
        have hlt := lt_of_attributes hlast
        omega
    · cases h

/-- The tags from an offset on, but for those that start in one of the spans. -/
def tags (skipped : List Span) (text : List Char) (pos : Nat) : Except Misplaced (List Tag) :=
  match _hrest : slice text pos (byteLength text) with
  | .error cut => .error cut
  | .ok rest =>
    match _hcut : cutAt? '<' rest with
    | none => .ok []
    | some (before, _) =>
      let start := pos + byteLength before
      if skipped.any (·.has start) then tags skipped text (start + 1)
      else
        match _htag : tag text start with
        | .error cut => .error cut
        | .ok none => tags skipped text (start + 1)
        | .ok (some (found, stop)) => (tags skipped text stop).map (found :: ·)
termination_by byteLength text - pos
decreasing_by
  all_goals have hlt := lt_of_cutAt?_slice _hrest _hcut
  · omega
  · omega
  · have := lt_of_tag _htag
    omega

end ComponentDoc.Component.Bytewise
