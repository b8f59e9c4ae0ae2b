import ComponentDoc.Path.Relation
import Mathlib

/-!
The order of paths. Components are compared one after the other, and names by their characters, so that the order is
linear up to the way a path is written. Paths in order, each once, are therefore settled by the components that occur.
-/
namespace ComponentDoc.Path

theorem compareText_eq (as bs : List Char) : compareText as bs = as.compareLex compare bs := by
  induction as generalizing bs with
  | nil => cases bs <;> rfl
  | cons a as ih =>
    cases bs with
    | nil => rfl
    | cons b bs =>
      rw [compareText, List.compareLex_cons_cons, ih]
      have hlt : Nat.blt a.toNat b.toNat ↔ a < b := Iff.of_eq Nat.blt_eq
      have hgt : Nat.blt b.toNat a.toNat ↔ b < a := Iff.of_eq Nat.blt_eq
      rcases lt_trichotomy a b with h | rfl | h
      · rw [if_pos (hlt.mpr h), compare_lt_iff_lt.mpr h]
        rfl
      · have hself : ¬ Nat.blt a.toNat a.toNat := fun h => lt_irrefl a (hlt.mp h)
        rw [if_neg hself, if_neg hself, compare_eq_iff_eq.mpr rfl]
        rfl
      · rw [if_neg fun h' => lt_asymm h (hlt.mp h'), if_pos (hgt.mpr h), compare_gt_iff_gt.mpr h]
        rfl

/-- The text of a name; other components have none. -/
def Part.nameText : Part → List Char
  | .name text => text
  | _ => []

theorem comparePart_eq : comparePart = compareLex (compareOn Part.rank) (compareOn Part.nameText) := by
  funext a b
  cases a with
  | name text =>
    cases b with
    | name other => exact compareText_eq text other
    | _ => rfl
  | _ => cases b <;> rfl

instance : Std.TransCmp comparePart := by
  rw [comparePart_eq]
  infer_instance

instance : Std.LawfulEqCmp comparePart where
  compare_self {a} := Std.ReflCmp.compare_self
  eq_of_compare {a b} h := by
    rw [comparePart_eq, compareLex_eq_eq] at h
    have hrank : a.rank = b.rank := Std.LawfulEqCmp.eq_of_compare h.1
    have htext : a.nameText = b.nameText := Std.LawfulEqCmp.eq_of_compare h.2
    cases a <;> cases b <;> simp_all [Part.rank, Part.nameText]

theorem compareParts_eq (as bs : List Part) : compareParts as bs = as.compareLex comparePart bs := by
  induction as generalizing bs with
  | nil => cases bs <;> rfl
  | cons a as ih =>
    cases bs with
    | nil => rfl
    | cons b bs =>
      rw [compareParts, List.compareLex_cons_cons, ih]
      cases comparePart a b <;> rfl

instance : Std.TransCmp compareParts := by
  rw [show compareParts = List.compareLex comparePart from funext₂ compareParts_eq]
  infer_instance

instance : Std.LawfulEqCmp compareParts := by
  rw [show compareParts = List.compareLex comparePart from funext₂ compareParts_eq]
  infer_instance

/-- The first path comes before the second and is another one. -/
def Before (a b : List Char) : Prop :=
  compareParts (parts a) (parts b) = .lt

theorem precedes_iff {a b : List Char} : precedes a b ↔ (compareParts (parts a) (parts b)).isLE := by
  unfold precedes
  cases compareParts (parts a) (parts b) <;> decide

theorem precedes_trans (a b c : List Char) (hab : precedes a b) (hbc : precedes b c) : precedes a c :=
  precedes_iff.mpr (Std.TransCmp.isLE_trans (precedes_iff.mp hab) (precedes_iff.mp hbc))

theorem compareParts_swap (as bs : List Part) : compareParts bs as = (compareParts as bs).swap :=
  Std.OrientedCmp.eq_swap

theorem precedes_total (a b : List Char) : precedes a b || precedes b a := by
  unfold precedes
  rw [compareParts_swap (parts a) (parts b)]
  cases compareParts (parts a) (parts b) <;> decide

theorem mem_of_mem_distinct {paths : List (List Char)} {path : List Char} (h : path ∈ distinct paths) :
    path ∈ paths := by
  induction paths with
  | nil => exact h
  | cons first paths ih =>
    rcases List.mem_cons.mp h with rfl | hm
    · exact List.mem_cons_self
    · exact List.mem_cons_of_mem _ (ih (List.mem_filter.mp hm).1)

theorem exists_mem_distinct {paths : List (List Char)} {path : List Char} (h : path ∈ paths) :
    ∃ kept ∈ distinct paths, parts kept = parts path := by
  induction paths with
  | nil => cases h
  | cons first paths ih =>
    by_cases hsame : parts first = parts path
    · exact ⟨first, List.mem_cons_self, hsame⟩
    · have hm : path ∈ paths := by
        rcases List.mem_cons.mp h with rfl | hm
        · exact absurd rfl hsame
        · exact hm
      obtain ⟨kept, hk, hparts⟩ := ih hm
      have hother : parts kept ≠ parts first := by
        rw [hparts]
        exact fun he => hsame he.symm
      refine ⟨kept, ?_, hparts⟩
      exact List.mem_cons_of_mem _ (List.mem_filter.mpr ⟨hk, by simpa using hother⟩)

theorem pairwise_distinct (paths : List (List Char)) :
    (distinct paths).Pairwise fun a b => parts a ≠ parts b := by
  induction paths with
  | nil => exact .nil
  | cons path paths ih =>
    refine .cons ?_ (ih.filter _)
    intro other hother
    have hne : parts other ≠ parts path := by simpa using (List.mem_filter.mp hother).2
    exact hne.symm

theorem mem_of_mem_sortDistinct {paths : List (List Char)} {path : List Char}
    (h : path ∈ sortDistinct paths) : path ∈ paths :=
  mem_of_mem_distinct (List.mem_mergeSort.mp h)

theorem exists_mem_sortDistinct {paths : List (List Char)} {path : List Char} (h : path ∈ paths) :
    ∃ kept ∈ sortDistinct paths, parts kept = parts path := by
  obtain ⟨kept, hk, hparts⟩ := exists_mem_distinct h
  exact ⟨kept, List.mem_mergeSort.mpr hk, hparts⟩

theorem nodup_map_parts_sortDistinct (paths : List (List Char)) : ((sortDistinct paths).map parts).Nodup :=
  List.pairwise_map.mpr ((pairwise_distinct paths).perm (List.mergeSort_perm _ precedes).symm Ne.symm)

theorem pairwise_sortDistinct (paths : List (List Char)) : (sortDistinct paths).Pairwise Before := by
  have hsorted := List.pairwise_mergeSort precedes_trans precedes_total (distinct paths)
  have hdistinct := List.pairwise_map.mp (nodup_map_parts_sortDistinct paths)
  refine List.Pairwise.imp₂ ?_ hsorted hdistinct
  intro a b hle hne
  have hneq : compareParts (parts a) (parts b) ≠ .eq := fun h => hne (Std.LawfulEqCmp.eq_of_compare h)
  cases hcmp : compareParts (parts a) (parts b) with
  | lt => exact hcmp
  | eq => exact absurd hcmp hneq
  | gt => simp [precedes, hcmp] at hle

theorem mem_map_parts_sortDistinct {paths : List (List Char)} {ps : List Part} :
    ps ∈ (sortDistinct paths).map parts ↔ ps ∈ paths.map parts := by
  simp only [List.mem_map]
  constructor
  · rintro ⟨path, hpath, rfl⟩
    exact ⟨path, mem_of_mem_sortDistinct hpath, rfl⟩
  · rintro ⟨path, hpath, rfl⟩
    exact exists_mem_sortDistinct hpath

/-- The same paths, however often and in whatever order they are given, come out as the same list. -/
theorem map_parts_sortDistinct_eq {paths others : List (List Char)}
    (h : ∀ ps, ps ∈ paths.map parts ↔ ps ∈ others.map parts) :
    (sortDistinct paths).map parts = (sortDistinct others).map parts := by
  have hlt (paths : List (List Char)) :
      ((sortDistinct paths).map parts).Pairwise fun a b => compareParts a b = .lt :=
    List.pairwise_map.mpr (pairwise_sortDistinct paths)
  have hirrefl : Std.Irrefl fun a b => compareParts a b = .lt :=
    ⟨fun a h => Ordering.noConfusion (h.symm.trans (Std.ReflCmp.compare_self : compareParts a a = .eq))⟩
  have hantisymm : Std.Antisymm fun a b => compareParts a b = .lt := by
    refine ⟨fun a b hab hba => ?_⟩
    rw [compareParts_swap b a, hba] at hab
    cases hab
  refine (hlt paths).eq_of_mem_iff (hlt others) ?_
  intro ps
  rw [mem_map_parts_sortDistinct, mem_map_parts_sortDistinct]
  exact h ps

end ComponentDoc.Path
