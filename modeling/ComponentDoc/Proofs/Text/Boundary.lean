import ComponentDoc.Document.Locate
import ComponentDoc.Text.Search
import Mathlib

namespace ComponentDoc.Text

/-- The offset falls between two characters of the text, or at one of its ends. -/
def OnBoundary (cs : List Char) (n : Nat) : Prop :=
  ∃ before after, cs = before ++ after ∧ byteLength before = n

theorem cutBytes?_cons {n : Nat} (hn : 0 < n) (c : Char) (cs : List Char) :
    cutBytes? n (c :: cs) = if c.utf8Size ≤ n then
      (cutBytes? (n - c.utf8Size) cs).map fun p => (c :: p.1, p.2) else none := by
  obtain ⟨m, rfl⟩ := Nat.exists_eq_succ_of_ne_zero hn.ne'
  rw [cutBytes?]
  simp only [Nat.ble_eq]

/-- A cut behind a leading text. -/
theorem cutBytes?_append (lead cs : List Char) (n : Nat) :
    cutBytes? (byteLength lead + n) (lead ++ cs) =
      (cutBytes? n cs).map fun p => (lead ++ p.1, p.2) := by
  induction lead with
  | nil => simp
  | cons c lead ih =>
    have hc : 0 < c.utf8Size := c.utf8Size_pos
    have hrest : byteLength (c :: lead) + n - c.utf8Size = byteLength lead + n := by
      rw [byteLength_cons]
      omega
    rw [List.cons_append, cutBytes?_cons (by rw [byteLength_cons]; omega), hrest, ih,
      if_pos (by rw [byteLength_cons]; omega), Option.map_map]
    rfl

theorem cutBytes?_byteLength (before after : List Char) :
    cutBytes? (byteLength before) (before ++ after) = some (before, after) := by
  have h := cutBytes?_append before after 0
  simpa [cutBytes?] using h

theorem byteLength_of_cutBytes? {cs before after : List Char} {n : Nat}
    (h : cutBytes? n cs = some (before, after)) : cs = before ++ after ∧ byteLength before = n := by
  induction cs generalizing n before with
  | nil =>
    cases n with
    | zero =>
      obtain ⟨rfl, rfl⟩ : [] = before ∧ [] = after := by simpa [cutBytes?] using h
      exact ⟨rfl, rfl⟩
    | succ n => simp [cutBytes?] at h
  | cons c cs ih =>
    rcases Nat.eq_zero_or_pos n with rfl | hn
    · obtain ⟨rfl, rfl⟩ : [] = before ∧ c :: cs = after := by simpa [cutBytes?] using h
      exact ⟨rfl, rfl⟩
    · rw [cutBytes?_cons hn] at h
      split_ifs at h with hc
      obtain ⟨⟨b, a⟩, hb, hp⟩ := Option.map_eq_some_iff.mp h
      obtain ⟨rfl, rfl⟩ := Prod.mk.inj hp
      obtain ⟨rfl, hl⟩ := ih hb
      refine ⟨rfl, ?_⟩
      rw [byteLength_cons, hl]
      omega

theorem onBoundary_iff_isSome {cs : List Char} {n : Nat} :
    OnBoundary cs n ↔ (cutBytes? n cs).isSome := by
  constructor
  · rintro ⟨before, after, rfl, rfl⟩
    rw [cutBytes?_byteLength]
    rfl
  · intro h
    obtain ⟨⟨before, after⟩, hp⟩ := Option.isSome_iff_exists.mp h
    obtain ⟨rfl, hl⟩ := byteLength_of_cutBytes? hp
    exact ⟨before, after, rfl, hl⟩

/-- Between two places the text is the same, whatever comes before. -/
theorem slice?_append (lead cs : List Char) (start stop : Nat) :
    slice? (lead ++ cs) (byteLength lead + start) (byteLength lead + stop) = slice? cs start stop := by
  unfold slice?
  have hle : Nat.ble (byteLength lead + start) (byteLength lead + stop) = Nat.ble start stop := by
    rw [Bool.eq_iff_iff, Nat.ble_eq, Nat.ble_eq, Nat.add_le_add_iff_left]
  rw [hle, cutBytes?_append, Nat.add_sub_add_left]
  cases cutBytes? start cs <;> rfl

theorem slice?_eq_some_iff {cs gap : List Char} {start stop : Nat} :
    slice? cs start stop = some gap ↔ ∃ before after, cs = before ++ gap ++ after ∧
      byteLength before = start ∧ byteLength (before ++ gap) = stop := by
  unfold slice?
  constructor
  · intro h
    split_ifs at h with hle
    obtain ⟨⟨before, rest⟩, hbefore, h⟩ := Option.bind_eq_some_iff.mp h
    obtain ⟨⟨inside, after⟩, hinside, h⟩ := Option.bind_eq_some_iff.mp h
    obtain rfl : inside = gap := Option.some.inj h
    obtain ⟨rfl, hstart⟩ := byteLength_of_cutBytes? hbefore
    obtain ⟨rfl, hlength⟩ := byteLength_of_cutBytes? hinside
    have hord := Nat.ble_eq.mp hle
    refine ⟨before, after, by simp, hstart, ?_⟩
    rw [byteLength_append, hstart, hlength]
    omega
  · rintro ⟨before, after, rfl, rfl, rfl⟩
    have hle : byteLength before ≤ byteLength (before ++ gap) := by
      rw [byteLength_append]
      omega
    have hlength : byteLength (before ++ gap) - byteLength before = byteLength gap := by
      rw [byteLength_append]
      omega
    rw [if_pos (Nat.ble_eq.mpr hle), List.append_assoc, cutBytes?_byteLength, hlength]
    simp [cutBytes?_byteLength]

theorem length_le_byteLength (cs : List Char) : cs.length ≤ byteLength cs := by
  induction cs with
  | nil => simp
  | cons c cs ih =>
    have hc : 0 < c.utf8Size := c.utf8Size_pos
    rw [List.length_cons, byteLength_cons]
    omega

theorem utf8Size_eq_one_iff {c : Char} : c.utf8Size = 1 ↔ c.toNat < 0x80 := by
  rw [Char.utf8Size_eq_one_iff, UInt32.le_iff_toNat_le]
  change c.toNat ≤ 127 ↔ _
  omega

/-- A text has as many bytes as characters just when all of them are ASCII. -/
theorem isAscii_iff_byteLength {cs : List Char} : isAscii cs ↔ byteLength cs = cs.length := by
  induction cs with
  | nil => simp [isAscii]
  | cons c cs ih =>
    have hc : 0 < c.utf8Size := c.utf8Size_pos
    have hle := length_le_byteLength cs
    have hcons : isAscii (c :: cs) ↔ c.utf8Size = 1 ∧ isAscii cs := by
      rw [utf8Size_eq_one_iff]
      simp [isAscii, Nat.blt_eq]
    rw [hcons, ih, byteLength_cons, List.length_cons]
    omega

theorem isAscii_append {xs ys : List Char} : isAscii (xs ++ ys) ↔ isAscii xs ∧ isAscii ys := by
  simp [isAscii, List.all_append]

end ComponentDoc.Text

namespace ComponentDoc

open Text

/-- An offset on a boundary is told in characters. -/
theorem charOffset_byteLength (before after : List Char) :
    charOffset (before ++ after) (byteLength before) = before.length := by
  unfold charOffset
  split_ifs with ha
  · exact isAscii_iff_byteLength.mp (isAscii_append.mp ha).1
  · rw [cutBytes?_byteLength]

/-- An offset off every boundary is left as it is. -/
theorem charOffset_of_not_onBoundary {cs : List Char} {n : Nat} (h : ¬ OnBoundary cs n) :
    charOffset cs n = n := by
  have hn : cutBytes? n cs = none := by simpa [onBoundary_iff_isSome] using h
  unfold charOffset
  split_ifs
  · rfl
  · rw [hn]

theorem onBoundary_append {lead cs : List Char} {n : Nat} :
    OnBoundary (lead ++ cs) (byteLength lead + n) ↔ OnBoundary cs n := by
  rw [onBoundary_iff_isSome, onBoundary_iff_isSome, cutBytes?_append, Option.isSome_map]

/-- Behind a leading text an offset moves on by the characters of that text just when the text is ASCII
or the offset is on a boundary. -/
theorem charOffset_append_iff {lead cs : List Char} {n : Nat} :
    charOffset (lead ++ cs) (byteLength lead + n) = lead.length + charOffset cs n ↔
      isAscii lead ∨ OnBoundary cs n := by
  by_cases hb : OnBoundary cs n
  · obtain ⟨before, after, rfl, rfl⟩ := hb
    rw [← List.append_assoc, ← byteLength_append, charOffset_byteLength, charOffset_byteLength,
      List.length_append]
    exact iff_of_true rfl (Or.inr ⟨before, after, rfl, rfl⟩)
  · rw [charOffset_of_not_onBoundary hb, charOffset_of_not_onBoundary (mt onBoundary_append.mp hb),
      Nat.add_right_cancel_iff, isAscii_iff_byteLength]
    simp [hb]

/-- Behind a leading text no offset moves on by less than the characters of that text. -/
theorem le_charOffset_append (lead cs : List Char) (n : Nat) :
    lead.length + charOffset cs n ≤ charOffset (lead ++ cs) (byteLength lead + n) := by
  by_cases hb : OnBoundary cs n
  · exact (charOffset_append_iff.mpr (Or.inr hb)).ge
  · rw [charOffset_of_not_onBoundary hb, charOffset_of_not_onBoundary (mt onBoundary_append.mp hb)]
    exact Nat.add_le_add_right (length_le_byteLength lead) n

end ComponentDoc
