import ComponentDoc.Proofs.Sequence

namespace ComponentDoc

variable {α ι : Type}

/-- What is in order already, among the members that a sort is looked at for, is left as it stands. -/
theorem filter_mergeSort {le : α → α → Bool} (htrans : ∀ a b c, le a b → le b c → le a c)
    (htotal : ∀ a b, le a b || le b a) {p : α → Bool} {xs : List α}
    (hp : (xs.filter p).Pairwise fun a b => le a b) : (xs.mergeSort le).filter p = xs.filter p := by
  have hsub := (List.sublist_mergeSort htrans htotal hp List.filter_sublist).filter p
  simp only [List.filter_filter, Bool.and_self] at hsub
  have hperm := (List.mergeSort_perm xs le).filter p
  exact (hsub.eq_of_length hperm.length_eq.symm).symm

theorem exists_mergeSort_eq_cons (le : α → α → Bool) {xs : List α} (h : xs ≠ []) :
    ∃ x rest, xs.mergeSort le = x :: rest := by
  apply List.exists_cons_of_ne_nil
  intro hnil
  have hperm := List.mergeSort_perm xs le
  rw [hnil] at hperm
  exact h hperm.symm.eq_nil

/-- The member that a stable sort puts in front: it comes before those after it, and none of those before it
comes before it. -/
def IsFirst (le : α → α → Bool) (xs : List α) (x : α) : Prop :=
  ∃ before after, xs = before ++ x :: after ∧ (∀ y ∈ before, ¬ le y x) ∧ ∀ y ∈ after, le x y

theorem IsFirst.unique {le : α → α → Bool} {xs : List α} {x y : α} (hx : IsFirst le xs x)
    (hy : IsFirst le xs y) : x = y := by
  obtain ⟨before, after, rfl, hbefore, hafter⟩ := hx
  obtain ⟨before', after', heq, hbefore', hafter'⟩ := hy
  -- If one of the two stands before the other, it both comes before it and does not.
  rcases List.append_eq_append_iff.mp heq with ⟨mid, hmid, hrest⟩ | ⟨mid, hmid, hrest⟩
  · cases mid with
    | nil => exact (List.cons.inj hrest).1
    | cons z mid =>
      obtain ⟨rfl, rfl⟩ := List.cons.inj hrest
      exact absurd (hafter y (by simp)) (hbefore' x (by simp [hmid]))
  · cases mid with
    | nil => exact (List.cons.inj hrest).1.symm
    | cons z mid =>
      obtain ⟨rfl, rfl⟩ := List.cons.inj hrest
      exact absurd (hafter' x (by simp)) (hbefore y (by simp [hmid]))

section

variable {le : α → α → Bool} (htrans : ∀ a b c, le a b → le b c → le a c)
  (htotal : ∀ a b, le a b || le b a) {xs rest : List α} {x : α} (hs : xs.mergeSort le = x :: rest)
include htrans htotal hs

theorem le_of_mergeSort_eq_cons {y : α} (hy : y ∈ xs) : le x y := by
  have hsorted := List.pairwise_mergeSort htrans htotal xs
  rw [hs, List.pairwise_cons] at hsorted
  have hm : y ∈ x :: rest := by
    rw [← hs]
    exact List.mem_mergeSort.mpr hy
  rcases List.mem_cons.mp hm with rfl | hm
  · simpa using htotal y y
  · exact hsorted.1 y hm

theorem isFirst_of_mergeSort_eq_cons : IsFirst le xs x := by
  have hleast {y : α} (hy : y ∈ xs) : le x y := le_of_mergeSort_eq_cons htrans htotal hs hy
  -- Those that come before the first are level with it, and the sort leaves them as they stand.
  have hlevel : (xs.filter (le · x)).Pairwise fun a b => le a b := by
    refine List.pairwise_of_forall_mem_list fun a ha b hb => ?_
    exact htrans a x b (List.mem_filter.mp ha).2 (hleast (List.mem_filter.mp hb).1)
  have hfind : xs.find? (le · x) = some x := by
    rw [← List.head?_filter, ← filter_mergeSort htrans htotal hlevel, hs,
      List.filter_cons_of_pos (by simpa using htotal x x), List.head?_cons]
  obtain ⟨_, before, after, rfl, hbefore⟩ := List.find?_eq_some_iff_append.mp hfind
  exact ⟨before, after, rfl, fun y hy => by simpa using hbefore y hy, fun y hy => hleast (by simp [hy])⟩

end

theorem mem_iff_of_filter_eq {pos : α → Nat} {xs ys : List α}
    (h : ∀ n, (xs.filter fun a => pos a == n) = ys.filter fun a => pos a == n) (a : α) :
    a ∈ xs ↔ a ∈ ys := by
  have ha : a ∈ (xs.filter fun b => pos b == pos a) ↔ a ∈ ys.filter fun b => pos b == pos a := by
    rw [h]
  simpa using ha

/-- Lists in order of position are the same if they hold the same members at each position, in the same
order. -/
theorem eq_of_pairwise_of_filter_eq {pos : α → Nat} {xs ys : List α}
    (hx : xs.Pairwise fun a b => pos a ≤ pos b) (hy : ys.Pairwise fun a b => pos a ≤ pos b)
    (h : ∀ n, (xs.filter fun a => pos a == n) = ys.filter fun a => pos a == n) : xs = ys := by
  induction xs generalizing ys with
  | nil =>
    cases ys with
    | nil => rfl
    | cons y ys => simpa using (mem_iff_of_filter_eq h y).mpr List.mem_cons_self
  | cons x xs ih =>
    cases ys with
    | nil => simpa using (mem_iff_of_filter_eq h x).mp List.mem_cons_self
    | cons y ys =>
      have hle : pos x ≤ pos y := by
        rcases List.mem_cons.mp ((mem_iff_of_filter_eq h y).mpr List.mem_cons_self) with rfl | hm
        · exact le_refl _
        · exact (List.pairwise_cons.mp hx).1 y hm
      have hge : pos y ≤ pos x := by
        rcases List.mem_cons.mp ((mem_iff_of_filter_eq h x).mp List.mem_cons_self) with rfl | hm
        · exact le_refl _
        · exact (List.pairwise_cons.mp hy).1 x hm
      -- Both first members are the first ones at the least position.
      have hfirst := h (pos x)
      rw [List.filter_cons_of_pos (by simp),
        List.filter_cons_of_pos (by simp [le_antisymm hle hge])] at hfirst
      obtain ⟨rfl, htail⟩ := List.cons.inj hfirst
      refine congrArg (x :: ·) (ih hx.of_cons hy.of_cons fun n => ?_)
      by_cases hn : pos x = n
      · rw [← hn, htail]
      · have hn' := h n
        rwa [List.filter_cons_of_neg (by simpa using hn),
          List.filter_cons_of_neg (by simpa using hn)] at hn'

section

variable (pos : α → Nat)

theorem ble_trans (a b c : α) (hab : Nat.ble (pos a) (pos b)) (hbc : Nat.ble (pos b) (pos c)) :
    Nat.ble (pos a) (pos c) :=
  Nat.ble_eq.mpr ((Nat.ble_eq.mp hab).trans (Nat.ble_eq.mp hbc))

theorem ble_total (a b : α) : Nat.ble (pos a) (pos b) || Nat.ble (pos b) (pos a) := by
  simp only [Bool.or_eq_true, Nat.ble_eq]
  exact le_total _ _

theorem pairwise_mergeSort_ble (xs : List α) :
    (xs.mergeSort fun a b => Nat.ble (pos a) (pos b)).Pairwise fun a b => pos a ≤ pos b :=
  (List.pairwise_mergeSort (ble_trans pos) (ble_total pos) xs).imp Nat.ble_eq.mp

theorem filter_pos_mergeSort (xs : List α) (n : Nat) :
    ((xs.mergeSort fun a b => Nat.ble (pos a) (pos b)).filter fun a => pos a == n) =
      xs.filter fun a => pos a == n := by
  refine filter_mergeSort (ble_trans pos) (ble_total pos) ?_
  refine List.pairwise_of_forall_mem_list fun a ha b hb => ?_
  have ha' : pos a = n := by simpa using (List.mem_filter.mp ha).2
  have hb' : pos b = n := by simpa using (List.mem_filter.mp hb).2
  exact Nat.ble_eq.mpr (ha'.trans hb'.symm).le

/-- Sorting by position does not depend on how the members at different positions are mixed. -/
theorem mergeSort_eq_of_filter_eq {xs ys : List α}
    (h : ∀ n, (xs.filter fun a => pos a == n) = ys.filter fun a => pos a == n) :
    (xs.mergeSort fun a b => Nat.ble (pos a) (pos b)) =
      ys.mergeSort fun a b => Nat.ble (pos a) (pos b) := by
  refine eq_of_pairwise_of_filter_eq (pairwise_mergeSort_ble pos xs) (pairwise_mergeSort_ble pos ys) ?_
  intro n
  rw [filter_pos_mergeSort, filter_pos_mergeSort, h]

/-- A member at the least position, and the first of those there. -/
def IsFirstLeast (xs : List α) (x : α) : Prop :=
  ∃ before after, xs = before ++ x :: after ∧ (∀ y ∈ before, pos x < pos y) ∧
    ∀ y ∈ after, pos x ≤ pos y

theorem isFirstLeast_iff {xs : List α} {x : α} :
    IsFirstLeast pos xs x ↔ IsFirst (fun a b => Nat.ble (pos a) (pos b)) xs x := by
  simp only [IsFirstLeast, IsFirst, Nat.ble_eq, not_le]

theorem IsFirstLeast.unique {xs : List α} {x y : α} (hx : IsFirstLeast pos xs x)
    (hy : IsFirstLeast pos xs y) : x = y :=
  ((isFirstLeast_iff pos).mp hx).unique ((isFirstLeast_iff pos).mp hy)

/-- A stable sort puts the first of the least members in front. -/
theorem isFirstLeast_of_head? {xs : List α} {x : α}
    (h : (xs.mergeSort fun a b => Nat.ble (pos a) (pos b)).head? = some x) : IsFirstLeast pos xs x := by
  obtain ⟨rest, hsort⟩ := List.head?_eq_some_iff.mp h
  exact (isFirstLeast_iff pos).mpr (isFirst_of_mergeSort_eq_cons (ble_trans pos) (ble_total pos) hsort)

theorem head?_mergeSort_ble_iff {xs : List α} {x : α} :
    (xs.mergeSort fun a b => Nat.ble (pos a) (pos b)).head? = some x ↔ IsFirstLeast pos xs x := by
  refine ⟨isFirstLeast_of_head? pos, fun hx => ?_⟩
  have hne : xs ≠ [] := by
    obtain ⟨before, after, rfl, _⟩ := hx
    simp
  obtain ⟨y, rest, hsort⟩ := exists_mergeSort_eq_cons (fun a b => Nat.ble (pos a) (pos b)) hne
  have hy : (xs.mergeSort fun a b => Nat.ble (pos a) (pos b)).head? = some y := by
    rw [hsort, List.head?_cons]
  rw [hy, (isFirstLeast_of_head? pos hy).unique pos hx]

end

/-- Keys of which those that count are listed in the same order. -/
theorem filter_eq_of_idxOf_lt_iff [DecidableEq ι] {ks ls : List ι} (hk : ks.Nodup) (hl : ls.Nodup)
    (hmem : ∀ k, k ∈ ks ↔ k ∈ ls) {p : ι → Bool}
    (horder : ∀ k l, p k → p l → (ks.idxOf k < ks.idxOf l ↔ ls.idxOf k < ls.idxOf l)) :
    ks.filter p = ls.filter p := by
  have hsorted {ms : List ι} (hm : ms.Nodup) : ms.Pairwise fun k l => ms.idxOf k < ms.idxOf l := by
    rw [List.pairwise_iff_getElem]
    intro i j hi hj hij
    rwa [hm.idxOf_getElem, hm.idxOf_getElem]
  have hks := (hsorted hk).filter p
  have hls : (ls.filter p).Pairwise fun k l => ks.idxOf k < ks.idxOf l := by
    refine ((hsorted hl).filter p).imp_of_mem fun hk hl hlt => ?_
    exact (horder _ _ (List.mem_filter.mp hk).2 (List.mem_filter.mp hl).2).mpr hlt
  have hperm : (ks.filter p).Perm (ls.filter p) := by
    refine (List.perm_ext_iff_of_nodup (hk.filter p) (hl.filter p)).mpr fun k => ?_
    rw [List.mem_filter, List.mem_filter, hmem]
  exact hperm.eq_of_pairwise (fun k l _ _ hkl hlk => absurd hkl hlk.not_gt) hks hls

theorem flatMap_filter_nonempty (f : ι → List α) (ks : List ι) :
    (ks.filter fun k => !(f k).isEmpty).flatMap f = ks.flatMap f := by
  induction ks with
  | nil => rfl
  | cons k ks ih =>
    cases hf : f k with
    | nil => rw [List.filter_cons_of_neg (by simp [hf]), ih, List.flatMap_cons, hf, List.nil_append]
    | cons a as => rw [List.filter_cons_of_pos (by simp [hf]), List.flatMap_cons, ih, List.flatMap_cons]

section

variable (pos : α → Nat)

/-- Members that are picked out and then sorted, or sorted and then picked out. -/
theorem filter_mergeSort_ble (p : α → Bool) (xs : List α) :
    (xs.mergeSort fun a b => Nat.ble (pos a) (pos b)).filter p =
      (xs.filter p).mergeSort fun a b => Nat.ble (pos a) (pos b) := by
  refine eq_of_pairwise_of_filter_eq ((pairwise_mergeSort_ble pos xs).filter p)
    (pairwise_mergeSort_ble pos _) fun n => ?_
  rw [filter_pos_mergeSort, List.filter_comm, filter_pos_mergeSort, List.filter_comm]

/-- Lists of several keys sorted together. If the keys of lists that meet at a position are taken in the
same order, the lists are mixed in the same way. -/
theorem mergeSort_flatMap_eq [DecidableEq ι] (f : ι → List α) {ks ls : List ι} (hk : ks.Nodup)
    (hl : ls.Nodup) (hmem : ∀ k, k ∈ ks ↔ k ∈ ls)
    (horder : ∀ k l, (∃ a ∈ f k, ∃ b ∈ f l, pos a = pos b) →
      (ks.idxOf k < ks.idxOf l ↔ ls.idxOf k < ls.idxOf l)) :
    ((ks.flatMap f).mergeSort fun a b => Nat.ble (pos a) (pos b)) =
      (ls.flatMap f).mergeSort fun a b => Nat.ble (pos a) (pos b) := by
  refine mergeSort_eq_of_filter_eq pos fun n => ?_
  -- At one position only the keys that have members there count, and these are in the same order.
  let here (k : ι) : List α := (f k).filter fun a => pos a == n
  have hhere {k : ι} (h : !(here k).isEmpty) : ∃ a ∈ f k, pos a = n := by
    obtain ⟨a, ha⟩ := List.exists_mem_of_ne_nil (here k) (by simpa using h)
    obtain ⟨hm, hn⟩ := List.mem_filter.mp ha
    exact ⟨a, hm, by simpa using hn⟩
  have hsame : (ks.filter fun k => !(here k).isEmpty) = ls.filter fun k => !(here k).isEmpty := by
    refine filter_eq_of_idxOf_lt_iff hk hl hmem fun k l hk hl => ?_
    obtain ⟨a, ha, hna⟩ := hhere hk
    obtain ⟨b, hb, hnb⟩ := hhere hl
    exact horder k l ⟨a, ha, b, hb, hna.trans hnb.symm⟩
  rw [List.filter_flatMap, List.filter_flatMap, ← flatMap_filter_nonempty here ks, hsame,
    flatMap_filter_nonempty here ls]

end

end ComponentDoc
