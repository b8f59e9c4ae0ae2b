import ComponentDoc.Component.Basic

/-!
Opening tags of the markup with their attributes. A value is quoted, an expression in braces, or bare;
an expression may also stand alone in place of an attribute. What is not a complete tag is text.
-/
namespace ComponentDoc.Component

open Text

structure Attribute where
  name : List Char
  start : Nat
  /-- The value without its quotes, and where it starts. -/
  value : Option (List Char × Nat)
deriving Repr, Inhabited

structure Tag where
  name : List Char
  /-- Where the tag starts. -/
  start : Nat
  attributes : List Attribute
deriving Repr, Inhabited

def isTagNameChar (c : Char) : Bool :=
  isAsciiAlnum c || c == '_' || c == ':' || c == '.' || c == '-'

/-- Characters that end the name of an attribute. -/
def endsAttributeName (c : Char) : Bool :=
  isAsciiBlank c || c == '=' || c == '>' || c == '/'

/-- Characters that end a bare value. -/
def endsBareValue (c : Char) : Bool :=
  isAsciiBlank c || c == '>'

def isQuote (c : Char) : Bool :=
  c == '"' || c == '\'' || c == '\x60'

/-- Cuts after the brace that closes an expression; braces in strings do not count. An expression that
is not closed takes the whole text. -/
def cutExpression (depth : Nat) (quote : Option Char) : List Char → List Char × List Char
  | [] => ([], [])
  | c :: cs =>
    match quote with
    | some q =>
      if c == '\\' then
        match cs with
        | [] => ([c], [])
        | d :: cs =>
          let (inside, rest) := cutExpression depth quote cs
          (c :: d :: inside, rest)
      else
        let (inside, rest) := cutExpression depth (if c == q then none else quote) cs
        (c :: inside, rest)
    | none =>
      if c == '\x7d' && Nat.ble depth 1 then ([c], cs)
      else
        let depth := if c == '\x7b' then depth + 1 else if c == '\x7d' then depth - 1 else depth
        let (inside, rest) := cutExpression depth (if isQuote c then some c else none) cs
        (c :: inside, rest)

/-- The value at the front of a text, how many bytes of quotes come before it, and the rest. -/
def value? (cs : List Char) : Option (List Char × Nat × List Char) :=
  match cs with
  | [] => none
  | c :: rest =>
    if c == '"' || c == '\'' then (cutAt? c rest).map fun (inside, rest) => (inside, 1, rest)
    else if c == '\x7b' then some ((cutExpression 0 none cs).1, 0, (cutExpression 0 none cs).2)
    else some (cs.takeWhile (!endsBareValue ·), 0, cs.dropWhile (!endsBareValue ·))

/-- An attribute after its name: the rest and the value, whose start is given by `place`. -/
def attributeValue? (place : List Char → Nat) (cs : List Char) :
    Option (Option (List Char × Nat) × List Char) :=
  match cs.dropWhile isAsciiBlank with
  | '=' :: rest =>
    let rest := rest.dropWhile isAsciiBlank
    (value? rest).map fun (value, quotes, after) => (some (value, place rest + quotes), after)
  | _ => some (none, cs)

theorem length_cutExpression (depth : Nat) (quote : Option Char) (cs : List Char) :
    (cutExpression depth quote cs).2.length ≤ cs.length - 1 := by
  fun_induction cutExpression depth quote cs <;> simp_all <;> omega

theorem length_cutAt? {d : Char} {cs before rest : List Char} (h : cutAt? d cs = some (before, rest)) :
    rest.length ≤ cs.length := by
  induction cs generalizing before with
  | nil => cases h
  | cons c cs ih =>
    unfold cutAt? at h
    split at h
    · cases h
      simp
    · cases hc : cutAt? d cs with
      | none => simp [hc] at h
      | some p =>
        obtain ⟨b, r⟩ := p
        simp only [hc, Option.map_some, Option.some.injEq, Prod.mk.injEq] at h
        obtain ⟨_, rfl⟩ := h
        have := ih hc
        simp only [List.length_cons]
        omega

theorem length_value? {cs value rest : List Char} {quotes : Nat}
    (h : value? cs = some (value, quotes, rest)) : rest.length ≤ cs.length := by
  unfold value? at h
  split at h
  · cases h
  · next c more =>
    split at h
    · cases hc : cutAt? c more with
      | none => simp [hc] at h
      | some p =>
        obtain ⟨b, r⟩ := p
        simp only [hc, Option.map_some, Option.some.injEq, Prod.mk.injEq] at h
        obtain ⟨_, _, rfl⟩ := h
        have := length_cutAt? hc
        simp only [List.length_cons]
        omega
    · split at h
      · simp only [Option.some.injEq, Prod.mk.injEq] at h
        obtain ⟨_, _, rfl⟩ := h
        have := length_cutExpression 0 none (c :: more)
        omega
      · cases h
        exact (List.dropWhile_sublist _).length_le

theorem length_attributeValue? {place : List Char → Nat} {cs rest : List Char}
    {value : Option (List Char × Nat)} (h : attributeValue? place cs = some (value, rest)) :
    rest.length ≤ cs.length := by
  unfold attributeValue? at h
  split at h
  · next r hr =>
    cases hv : value? (r.dropWhile isAsciiBlank) with
    | none => simp [hv] at h
    | some p =>
      obtain ⟨v, q, a⟩ := p
      simp only [hv, Option.map_some, Option.some.injEq, Prod.mk.injEq] at h
      obtain ⟨_, rfl⟩ := h
      have h1 := length_value? hv
      have h2 := (List.dropWhile_sublist (l := r) isAsciiBlank).length_le
      have h3 := (List.dropWhile_sublist (l := cs) isAsciiBlank).length_le
      rw [hr] at h3
      simp only [List.length_cons] at h3
      omega
  · cases h
    exact Nat.le_refl _

/-- The attributes up to the end of a tag, and the text after it; `place` tells where a rest of the text
starts. -/
def attributes? (place : List Char → Nat) (cs : List Char) : Option (List Attribute × List Char) :=
  match _h : cs.dropWhile isAsciiBlank with
  | [] => none
  | '>' :: rest => some ([], rest)
  | '/' :: rest => attributes? place rest
  | '=' :: rest => attributes? place rest
  | '\x7b' :: rest => attributes? place (cutExpression 0 none ('\x7b' :: rest)).2
  | c :: more =>
    let name := c :: more.takeWhile (!endsAttributeName ·)
    match _hv : attributeValue? place (more.dropWhile (!endsAttributeName ·)) with
    | none => none
    | some (value, rest) =>
      (attributes? place rest).map fun (others, after) => (⟨name, place (c :: more), value⟩ :: others, after)
termination_by cs.length
decreasing_by
  all_goals have hd := (List.dropWhile_sublist (l := cs) isAsciiBlank).length_le
  all_goals rw [_h] at hd
  all_goals simp only [List.length_cons] at hd
  · omega
  · omega
  · have := length_cutExpression 0 none ('\x7b' :: rest)
    simp only [List.length_cons] at this
    omega
  · have h1 := length_attributeValue? _hv
    have h2 := (List.dropWhile_sublist (l := more) (!endsAttributeName ·)).length_le
    omega

/-- The opening tag at the front of a text that starts at an offset, and where it ends. -/
def tagAt? (cs : List Char) (offset : Nat) : Option (Tag × Nat) :=
  match cs with
  | '<' :: c :: more =>
    if isAsciiLetter c then
      let total := byteLength cs
      let place (rest : List Char) : Nat := offset + (total - byteLength rest)
      let name := (c :: more).takeWhile isTagNameChar
      (attributes? place ((c :: more).dropWhile isTagNameChar)).map fun (attributes, rest) =>
        (⟨name, offset, attributes⟩, place rest)
    else none
  | _ => none

/-- The opening tags of a text that starts at an offset, but for those that start in one of the spans;
what comes before `taken` belongs to a tag already found. -/
def tagsFrom (skipped : List Span) (taken : Nat) : List Char → Nat → List Tag
  | [], _ => []
  | c :: cs, offset =>
    if Nat.blt offset taken || skipped.any (·.has offset) then
      tagsFrom skipped taken cs (offset + c.utf8Size)
    else match tagAt? (c :: cs) offset with
      | some (tag, stop) => tag :: tagsFrom skipped stop cs (offset + c.utf8Size)
      | none => tagsFrom skipped taken cs (offset + c.utf8Size)

/-- The opening tags of a component, those in comments left out. -/
def tags (c : Component) : List Tag :=
  tagsFrom (c.markupComments.map Comment.Source.span) 0 c.markup 0

end ComponentDoc.Component
