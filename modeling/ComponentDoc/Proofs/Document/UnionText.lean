import ComponentDoc.Document.TypeDescriptor
import ComponentDoc.Json.Read
import Mathlib

/-!
The text of a union of constants. A constant is written as a JSON string: a reader of JSON gets the constant back
and stops at its closing quote, whatever comes behind it. A bar in a constant is thus never taken for one between
two constants, and the text of a union belongs to one list of constants only.
-/
namespace ComponentDoc

open Text

namespace Text

theorem isSurrogate_toNat (c : Char) : isSurrogate c.toNat = false := by
  have hvalid : c.toNat < 0xD800 ∨ 0xDFFF < c.toNat ∧ c.toNat < 0x110000 := c.valid
  rw [Bool.eq_false_iff]
  intro h
  simp only [isSurrogate, isLeadSurrogate, isTrailSurrogate, Bool.or_eq_true, Bool.and_eq_true, Nat.ble_eq,
    Nat.blt_eq] at h
  omega

theorem joinSurrogates_eq_self {codes : List Nat} (h : ∀ n ∈ codes, isSurrogate n = false) :
    joinSurrogates codes = codes := by
  fun_induction joinSurrogates codes with
  | case1 => rfl
  | case2 n => rfl
  | case3 m n rest hpair ih =>
    have hm := h m List.mem_cons_self
    simp [isSurrogate, (Bool.and_eq_true_iff.mp hpair).1] at hm
  | case4 m n rest hpair ih => rw [ih fun k hk => h k (List.mem_cons_of_mem m hk)]

theorem ofCodes_map_toNat (cs : List Char) :
    StringValue.ofCodes (cs.map Char.toNat) = .text (String.ofList cs) := by
  have hcodes : ∀ n ∈ cs.map Char.toNat, isSurrogate n = false := by
    intro n hn
    obtain ⟨c, _, rfl⟩ := List.mem_map.mp hn
    exact isSurrogate_toNat c
  have hany : (cs.map Char.toNat).any isSurrogate = false := by simpa using hcodes
  have hchar (c : Char) : (if isSurrogate c.toNat then '\uFFFD' else Char.ofNat c.toNat) = c := by
    rw [isSurrogate_toNat, if_neg Bool.false_ne_true, Char.ofNat_toNat]
  simp only [StringValue.ofCodes, joinSurrogates_eq_self hcodes, hany, List.map_map, Function.comp_def, hchar,
    List.map_id']
  rfl

end Text

namespace Json

theorem hexNumber?_hexDigit {n : Nat} (h : n < 0x20) :
    hexNumber? ['0', '0', hexDigit (n / 16), hexDigit (n % 16)] = some n := by
  have hall : ∀ n < 0x20, hexNumber? ['0', '0', hexDigit (n / 16), hexDigit (n % 16)] = some n := by decide
  exact hall n h

theorem stringCodes?_escapeChar (c : Char) (cs : List Char) : stringCodes? (escapeChar c ++ cs) =
    (stringCodes? cs).map fun (codes, rest) => (c.toNat :: codes, rest) := by
  have hmap (code : Nat) : (do let (codes, rest) ← stringCodes? cs; return (code :: codes, rest)) =
      (stringCodes? cs).map fun (codes, rest) => (code :: codes, rest) := by
    cases stringCodes? cs <;> rfl
  unfold escapeChar
  split
  · exact hmap '"'.toNat
  · exact hmap '\\'.toNat
  · exact hmap '\n'.toNat
  · exact hmap '\r'.toNat
  · exact hmap '\t'.toNat
  · exact hmap '\x08'.toNat
  · exact hmap '\x0c'.toNat
  · next hquote hbackslash _ _ _ _ _ =>
    split_ifs with hcontrol
    · have hcode := hexNumber?_hexDigit (n := c.toNat) (by simpa using hcontrol)
      simp only [List.cons_append, List.nil_append, stringCodes?, hcode, Option.bind_eq_bind, Option.bind_some]
      exact hmap c.toNat
    · -- The character stands for itself, as it is none of those that open another case of the reader.
      rw [List.singleton_append, stringCodes?]
      · rw [if_neg (by simpa [hcontrol] using hbackslash)]
        exact hmap c.toNat
      · exact hquote
      · rintro _ _ _ _ _ rfl
        exact absurd rfl hbackslash
      · rintro _ _ rfl
        exact absurd rfl hbackslash

/-- The reader stops at the quote that closes the string, whatever comes behind it. -/
theorem stringCodes?_escaped (cs rest : List Char) :
    stringCodes? (cs.flatMap escapeChar ++ '"' :: rest) = some (cs.map Char.toNat, rest) := by
  induction cs with
  | nil => rfl
  | cons c cs ih =>
    rw [List.flatMap_cons, List.append_assoc, stringCodes?_escapeChar, ih]
    rfl

theorem string?_escaped (cs rest : List Char) :
    string? (cs.flatMap escapeChar ++ '"' :: rest) = some (.text (String.ofList cs), rest) := by
  rw [string?, stringCodes?_escaped]
  exact congrArg (fun value => some (value, rest)) (ofCodes_map_toNat cs)

theorem read?_quote (cs : List Char) : read? (quote cs) = some (.text (String.ofList cs)) := by
  have hvalue (depth : Nat) : value? (depth + 1) (quote cs) = some (.text (String.ofList cs), []) := by
    have hblank : (quote cs).dropWhile isJsonBlank = quote cs := rfl
    rw [value?, hblank]
    simp only [quote, string?_escaped, Option.map_some]
    rfl
  rw [read?, hvalue]
  rfl

end Json

namespace Text

/-- A string in its quotes delimits itself. -/
theorem quote_append_inj {xs ys rest rest' : List Char} (h : quote xs ++ rest = quote ys ++ rest') :
    xs = ys ∧ rest = rest' := by
  have hopened : xs.flatMap escapeChar ++ '"' :: rest = ys.flatMap escapeChar ++ '"' :: rest' := by
    simpa [quote] using h
  have hread := congrArg Json.string? hopened
  rw [Json.string?_escaped, Json.string?_escaped] at hread
  simpa [String.ofList_inj] using hread

/-- Strings, each after a separator. -/
def separated (d : Char) (texts : List (List Char)) : List Char :=
  texts.flatMap fun text => d :: quote text

theorem separated_inj {d : Char} {xs ys : List (List Char)} (h : separated d xs = separated d ys) : xs = ys := by
  induction xs generalizing ys with
  | nil =>
    cases ys with
    | nil => rfl
    | cons y ys => cases h
  | cons x xs ih =>
    cases ys with
    | nil => cases h
    | cons y ys =>
      simp only [separated, List.flatMap_cons, List.cons_append, List.cons.injEq, true_and] at h
      obtain ⟨rfl, hrest⟩ := quote_append_inj h
      rw [ih hrest]

theorem intercalate_quote (d : Char) (x : List Char) (xs : List (List Char)) :
    [d].intercalate ((x :: xs).map quote) = quote x ++ separated d xs := by
  induction xs generalizing x with
  | nil => simp [separated]
  | cons y ys ih =>
    have hrest := ih y
    rw [List.map_cons] at hrest
    rw [List.map_cons, List.map_cons, List.intercalate_cons_cons, hrest]
    simp [separated]

theorem intercalate_quote_inj {d : Char} {xs ys : List (List Char)}
    (h : [d].intercalate (xs.map quote) = [d].intercalate (ys.map quote)) : xs = ys := by
  cases xs with
  | nil =>
    cases ys with
    | nil => rfl
    | cons y ys =>
      rw [intercalate_quote] at h
      cases h
  | cons x xs =>
    cases ys with
    | nil =>
      rw [intercalate_quote] at h
      cases h
    | cons y ys =>
      rw [intercalate_quote, intercalate_quote] at h
      obtain ⟨rfl, hrest⟩ := quote_append_inj h
      rw [separated_inj hrest]

end Text

namespace TypeDescriptor

theorem texts_eq_map (ts : List TypeDescriptor) : texts ts = ts.map text := by
  induction ts with
  | nil => rfl
  | cons t ts ih => rw [texts, ih, List.map_cons]

theorem toList_text_union (values : List String) : (union (values.map const)).text.toList =
    ['|'].intercalate ((values.map String.toList).map quote) := by
  have hconst (value : String) : (const value).text.toList = quote value.toList := by
    rw [text, quoted, String.toList_ofList]
  rw [text, texts_eq_map, String.toList_intercalate]
  simp only [List.map_map, Function.comp_def, hconst]
  rfl

/-- Two unions of constants have the same text only if they have the same constants in the same order, and the text
of each constant is a JSON string that spells it. -/
theorem union_text_unambiguous (values values' : List String) :
    ((union (values.map const)).text = (union (values'.map const)).text ↔ values = values') ∧
      ∀ value, Json.read? (const value).text.toList = some (.text value) := by
  constructor
  · constructor
    · intro h
      have hlist := congrArg String.toList h
      rw [toList_text_union, toList_text_union] at hlist
      exact (List.map_inj_right fun _ _ => String.toList_inj.mp).mp (intercalate_quote_inj hlist)
    · rintro rfl
      rfl
  · intro value
    rw [text, quoted, String.toList_ofList, Json.read?_quote, String.ofList_toList]

end TypeDescriptor

end ComponentDoc
