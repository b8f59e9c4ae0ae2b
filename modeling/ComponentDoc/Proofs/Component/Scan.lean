import ComponentDoc.Component.Tag
import Mathlib

namespace ComponentDoc.Component

open Text

variable {α : Type}

/-- Looks for things in a text that starts at an offset. None is looked for where `skips` holds or before
`taken`, which is where the last one that was found ends. -/
def scanFrom (skips : Nat → Bool) (at? : List Char → Nat → Option (α × Nat)) (taken : Nat) :
    List Char → Nat → List α
  | [], _ => []
  | c :: cs, offset =>
    if Nat.blt offset taken || skips offset then scanFrom skips at? taken cs (offset + c.utf8Size)
    else match at? (c :: cs) offset with
      | some (found, stop) => found :: scanFrom skips at? stop cs (offset + c.utf8Size)
      | none => scanFrom skips at? taken cs (offset + c.utf8Size)

theorem exists_of_mem_scanFrom {skips : Nat → Bool} {at? : List Char → Nat → Option (α × Nat)}
    {taken : Nat} {cs : List Char} {offset : Nat} {a : α} (h : a ∈ scanFrom skips at? taken cs offset) :
    ∃ ds place stop, at? ds place = some (a, stop) := by
  induction cs generalizing taken offset with
  | nil => simp [scanFrom] at h
  | cons c cs ih =>
    unfold scanFrom at h
    split at h
    · exact ih h
    · split at h
      · next found stop hat =>
        rcases List.mem_cons.mp h with rfl | hm
        · exact ⟨_, _, _, hat⟩
        · exact ih hm
      · exact ih h

/-- Nothing is found in a leading text in which nothing starts. -/
theorem scanFrom_append {skips : Nat → Bool} {at? : List Char → Nat → Option (α × Nat)}
    {lead : List Char} (hlead : ∀ c ∈ lead, ∀ cs offset, at? (c :: cs) offset = none)
    (taken : Nat) (cs : List Char) (offset : Nat) :
    scanFrom skips at? taken (lead ++ cs) offset =
      scanFrom skips at? taken cs (offset + byteLength lead) := by
  induction lead generalizing offset with
  | nil => rfl
  | cons c lead ih =>
    rw [List.cons_append, scanFrom, hlead c List.mem_cons_self, ite_self,
      ih fun d hd => hlead d (List.mem_cons_of_mem _ hd), byteLength_cons, Nat.add_assoc]

/-- Nothing is found in what is taken. -/
theorem scanFrom_append_of_taken {skips : Nat → Bool} {at? : List Char → Nat → Option (α × Nat)}
    {taken offset : Nat} {front : List Char} (h : offset + byteLength front ≤ taken) (cs : List Char) :
    scanFrom skips at? taken (front ++ cs) offset =
      scanFrom skips at? taken cs (offset + byteLength front) := by
  induction front generalizing offset with
  | nil => rfl
  | cons c front ih =>
    have hc := c.utf8Size_pos
    rw [byteLength_cons, ← Nat.add_assoc] at h ⊢
    have hlt : Nat.blt offset taken = true := Nat.blt_eq.mpr (by omega)
    rw [List.cons_append, scanFrom, hlt, Bool.true_or, if_pos rfl, ih h]

/-- It does not matter what was taken before the offset. -/
theorem scanFrom_of_le {skips : Nat → Bool} {at? : List Char → Nat → Option (α × Nat)} {taken taken' offset : Nat}
    (h : taken ≤ offset) (h' : taken' ≤ offset) (cs : List Char) :
    scanFrom skips at? taken cs offset = scanFrom skips at? taken' cs offset := by
  induction cs generalizing offset with
  | nil => rfl
  | cons c cs ih =>
    have hblt {n : Nat} (hn : n ≤ offset) : Nat.blt offset n = false := by
      rw [← Bool.not_eq_true, Nat.blt_eq]
      omega
    have hnext := @ih (offset + c.utf8Size) (by omega) (by omega)
    rw [scanFrom, scanFrom, hblt h, hblt h', hnext]

section

variable {skips skips' : Nat → Bool} {at? at?' : List Char → Nat → Option (α × Nat)} {f : α → α}
  {n : Nat} (hskips : ∀ offset, skips' (n + offset) = skips offset)
  (hat : ∀ cs offset, at?' cs (n + offset) = (at? cs offset).map fun p => (f p.1, n + p.2))
include hskips hat

/-- What is found further on; `taken` and `taken'` part the offsets in the same way. -/
theorem scanFrom_shift {taken taken' : Nat} (htaken : ∀ k, n + k < taken' ↔ k < taken)
    (cs : List Char) (offset : Nat) :
    scanFrom skips' at?' taken' cs (n + offset) = (scanFrom skips at? taken cs offset).map f := by
  induction cs generalizing taken taken' offset with
  | nil => rfl
  | cons c cs ih =>
    have hb : Nat.blt (n + offset) taken' = Nat.blt offset taken := by
      rw [Bool.eq_iff_iff, Nat.blt_eq, Nat.blt_eq, htaken]
    simp only [scanFrom, hb, hskips, hat, Nat.add_assoc]
    cases Nat.blt offset taken || skips offset with
    | true => exact ih htaken _
    | false =>
      cases at? (c :: cs) offset with
      | none => exact ih htaken _
      | some p =>
        -- From here on the end of what was found parts the offsets of both scans.
        exact congrArg (f p.1 :: ·) (ih (fun k => Nat.add_lt_add_iff_left) _)

/-- What is found behind a leading text. -/
theorem scanFrom_behind {lead : List Char} (hn : n = byteLength lead)
    (hlead : ∀ c ∈ lead, ∀ cs offset, at?' (c :: cs) offset = none) (cs : List Char) :
    scanFrom skips' at?' 0 (lead ++ cs) 0 = (scanFrom skips at? 0 cs 0).map f := by
  rw [scanFrom_append hlead, Nat.zero_add, ← hn]
  exact scanFrom_shift hskips hat (fun k => by simp) cs 0

end

theorem blocks_eq_scanFrom (name text : List Char) : blocks name text =
    scanFrom (fun _ => false)
      (fun cs offset => (blockAt? name cs offset).map fun b => (b, b.span.stop)) 0 text 0 := by
  have h (taken : Nat) (cs : List Char) (offset : Nat) : blocksFrom name taken cs offset =
      scanFrom (fun _ => false)
        (fun cs offset => (blockAt? name cs offset).map fun b => (b, b.span.stop)) taken cs offset := by
    induction cs generalizing taken offset with
    | nil => rfl
    | cons c cs ih =>
      simp only [blocksFrom, scanFrom, Bool.or_false, ih]
      cases blockAt? name (c :: cs) offset <;> rfl
  exact h 0 text 0

theorem htmlComments_eq_scanFrom (text : List Char) : htmlComments text =
    scanFrom (fun _ => false)
      (fun cs offset => (htmlCommentAt? cs offset).map fun c => (c, c.span.stop)) 0 text 0 := by
  have h (taken : Nat) (cs : List Char) (offset : Nat) : htmlCommentsFrom taken cs offset =
      scanFrom (fun _ => false)
        (fun cs offset => (htmlCommentAt? cs offset).map fun c => (c, c.span.stop)) taken cs offset := by
    induction cs generalizing taken offset with
    | nil => rfl
    | cons c cs ih =>
      simp only [htmlCommentsFrom, scanFrom, Bool.or_false, ih]
      cases htmlCommentAt? (c :: cs) offset <;> rfl
  exact h 0 text 0

theorem tagsFrom_eq_scanFrom (skipped : List Span) (taken : Nat) (cs : List Char) (offset : Nat) :
    tagsFrom skipped taken cs offset =
      scanFrom (fun offset => skipped.any (·.has offset)) tagAt? taken cs offset := by
  induction cs generalizing taken offset with
  | nil => rfl
  | cons c cs ih =>
    simp only [tagsFrom, scanFrom, ih]
    cases tagAt? (c :: cs) offset <;> rfl

end ComponentDoc.Component
