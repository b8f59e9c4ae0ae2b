import ComponentDoc.Proofs.Text.Place

/-!
The bytes of a text. Places count bytes, and a character of one byte stands at a place just when its byte
does, since no longer character has such a byte.
-/
namespace ComponentDoc.Text

/-- The text in UTF-8. -/
def bytes (cs : List Char) : List UInt8 :=
  cs.flatMap String.utf8EncodeChar

theorem bytes_cons (c : Char) (cs : List Char) : bytes (c :: cs) = String.utf8EncodeChar c ++ bytes cs := rfl

theorem bytes_append (xs ys : List Char) : bytes (xs ++ ys) = bytes xs ++ bytes ys :=
  List.flatMap_append

theorem length_bytes (cs : List Char) : (bytes cs).length = byteLength cs := by
  induction cs with
  | nil => rfl
  | cons c cs ih => rw [bytes_cons, List.length_append, String.length_utf8EncodeChar, ih, byteLength_cons]

/-- Each byte of a longer character has its highest bit set. -/
theorem le_toNat_of_mem_utf8EncodeChar {c : Char} (hc : c.utf8Size ≠ 1) {b : UInt8}
    (hb : b ∈ String.utf8EncodeChar c) : 0x80 ≤ b.toNat := by
  rw [Ne, utf8Size_eq_one_iff] at hc
  have hval : ¬ c.val.toNat ≤ 127 := fun h => hc (Nat.lt_succ_of_le h)
  unfold String.utf8EncodeChar at hb
  simp only [if_neg hval] at hb
  split_ifs at hb
  all_goals
    simp only [List.mem_cons, List.not_mem_nil, or_false] at hb
    rcases hb with rfl | rfl | rfl | rfl
  all_goals
    rw [UInt8.toNat_ofNat']
    omega

theorem toNat_toUInt8 {c : Char} (hc : c.utf8Size = 1) : c.toUInt8.toNat = c.toNat := by
  rw [utf8Size_eq_one_iff] at hc
  have hmod : c.toUInt8.toNat = c.toNat % 256 := UInt32.toNat_toUInt8 c.val
  omega

theorem toUInt8_inj {c d : Char} (hc : c.utf8Size = 1) (hd : d.utf8Size = 1)
    (h : c.toUInt8 = d.toUInt8) : c = d := by
  have hnat := congrArg UInt8.toNat h
  rw [toNat_toUInt8 hc, toNat_toUInt8 hd] at hnat
  exact Char.ext (UInt32.toNat_inj.mp hnat)

/-- A character of one byte is where its byte is. -/
theorem getElem?_bytes_eq_some_iff {c : Char} (hc : c.utf8Size = 1) {cs : List Char} {place : Nat} :
    (bytes cs)[place]? = some c.toUInt8 ↔ ∃ rest, StandsAt cs place (c :: rest) := by
  induction cs generalizing place with
  | nil =>
    constructor
    · intro h
      cases h
    · rintro ⟨rest, before, hnil, _⟩
      simp at hnil
  | cons d cs ih =>
    have hlength := String.length_utf8EncodeChar d
    rw [bytes_cons]
    by_cases hlt : place < d.utf8Size
    · rw [List.getElem?_append_left (by omega)]
      by_cases hd : d.utf8Size = 1
      · obtain rfl : place = 0 := by omega
        rw [String.utf8EncodeChar_eq_singleton hd]
        constructor
        · intro h
          obtain rfl := toUInt8_inj hd hc (Option.some.inj h)
          exact ⟨cs, standsAt_zero _⟩
        · rintro ⟨rest, h⟩
          obtain ⟨rfl, _⟩ := List.cons.inj (h.eq (standsAt_zero _))
          rfl
      · constructor
        · intro h
          have hle := le_toNat_of_mem_utf8EncodeChar hd (List.mem_of_getElem? h)
          rw [toNat_toUInt8 hc] at hle
          rw [utf8Size_eq_one_iff] at hc
          omega
        · rintro ⟨rest, h⟩
          rcases standsAt_cons_iff.mp h with ⟨_, heq⟩ | ⟨n, hn, _⟩
          · exact absurd hc ((List.cons.inj heq).1 ▸ hd)
          · omega
    · obtain ⟨n, rfl⟩ := Nat.exists_eq_add_of_le (not_lt.mp hlt)
      rw [List.getElem?_append_right (by omega), hlength, Nat.add_sub_cancel_left, ih]
      constructor
      · rintro ⟨rest, h⟩
        exact ⟨rest, standsAt_cons_iff.mpr (.inr ⟨n, rfl, h⟩)⟩
      · rintro ⟨rest, h⟩
        have hpos := d.utf8Size_pos
        rcases standsAt_cons_iff.mp h with ⟨hzero, _⟩ | ⟨m, hm, h⟩
        · omega
        · obtain rfl : n = m := by omega
          exact ⟨rest, h⟩

end ComponentDoc.Text
