import Mathlib

namespace ComponentDoc

variable {α β ε ι : Type}

theorem bind_eq_ok_iff {x : Except ε α} {f : α → Except ε β} {b : β} :
    (x >>= f) = .ok b ↔ ∃ a, x = .ok a ∧ f a = .ok b := by
  cases x with
  | error e => simp [bind, Except.bind]
  | ok a => simp [bind, Except.bind]

theorem map_eq_ok_iff {x : Except ε α} {f : α → β} {b : β} :
    x.map f = .ok b ↔ ∃ a, x = .ok a ∧ f a = b := by
  cases x with
  | error e => simp [Except.map]
  | ok a => simp [Except.map]

theorem toOption_eq_some_iff {x : Except ε α} {a : α} : x.toOption = some a ↔ x = .ok a := by
  cases x <;> simp [Except.toOption]

theorem exists_ok_of_mem {x : Except ε (List α)} {a : α} (h : a ∈ x.toOption.getD []) :
    ∃ as, x = .ok as ∧ a ∈ as := by
  cases x with
  | error e => cases h
  | ok as => exact ⟨as, rfl, h⟩

theorem mapM_eq_ok_iff {f : α → Except ε β} {xs : List α} {ys : List β} :
    xs.mapM f = .ok ys ↔ List.Forall₂ (fun x y => f x = .ok y) xs ys := by
  induction xs generalizing ys with
  | nil =>
    rw [List.mapM_nil, List.forall₂_nil_left_iff]
    exact ⟨fun h => (Except.ok.inj h).symm, fun h => congrArg Except.ok h.symm⟩
  | cons x xs ih =>
    rw [List.mapM_cons, bind_eq_ok_iff, List.forall₂_cons_left_iff]
    constructor
    · rintro ⟨y, hy, h⟩
      obtain ⟨zs, hz, h⟩ := bind_eq_ok_iff.mp h
      exact ⟨y, zs, hy, ih.mp hz, (Except.ok.inj h).symm⟩
    · rintro ⟨y, zs, hy, hz, rfl⟩
      exact ⟨y, hy, bind_eq_ok_iff.mpr ⟨zs, ih.mpr hz, rfl⟩⟩

theorem exists_mapM_eq_ok_iff {f : α → Except ε β} {xs : List α} :
    (∃ ys, xs.mapM f = .ok ys) ↔ ∀ x ∈ xs, ∃ y, f x = .ok y := by
  simp only [mapM_eq_ok_iff]
  induction xs with
  | nil => simp
  | cons x xs ih => simp [List.forall₂_cons_left_iff, ← ih]

/-- Members that are changed in a way that their steps follow. -/
theorem mapM_map_eq_map {α' β' : Type} {f : α → Except ε β} {f' : α' → Except ε β'} {g : α → α'}
    {h : β → β'} {xs : List α} (hf : ∀ x ∈ xs, f' (g x) = (f x).map h) :
    (xs.map g).mapM f' = (xs.mapM f).map (List.map h) := by
  induction xs with
  | nil => rfl
  | cons x xs ih =>
    rw [List.map_cons, List.mapM_cons, List.mapM_cons, hf x List.mem_cons_self,
      ih fun y hy => hf y (List.mem_cons_of_mem _ hy)]
    cases f x with
    | error e => rfl
    | ok y => cases xs.mapM f <;> rfl

theorem mapM_eq_map {β' : Type} {f : α → Except ε β} {f' : α → Except ε β'} {h : β → β'} {xs : List α}
    (hf : ∀ x ∈ xs, f' x = (f x).map h) : xs.mapM f' = (xs.mapM f).map (List.map h) := by
  have hid := mapM_map_eq_map (g := id) hf
  rwa [List.map_id] at hid

/-- The error of a step that fails. -/
def errorOf? : Except ε α → Option ε
  | .error e => some e
  | .ok _ => none

@[simp] theorem errorOf?_error (e : ε) : errorOf? (.error e : Except ε α) = some e := rfl

@[simp] theorem errorOf?_ok (a : α) : errorOf? (.ok a : Except ε α) = none := rfl

theorem errorOf?_eq_some_iff {x : Except ε α} {e : ε} : errorOf? x = some e ↔ x = .error e := by
  cases x <;> simp [errorOf?]

/-- Where the steps after it never fail, a step alone decides on the error. -/
theorem errorOf?_bind {x : Except ε α} {f : α → Except ε β} (hf : ∀ a, errorOf? (f a) = none) :
    errorOf? (x >>= f) = errorOf? x := by
  cases x with
  | error e => rfl
  | ok a => exact hf a

theorem errorOf?_mapM (f : α → Except ε β) (xs : List α) :
    errorOf? (xs.mapM f) = xs.findSome? fun x => errorOf? (f x) := by
  induction xs with
  | nil => rfl
  | cons x xs ih =>
    rw [List.mapM_cons]
    cases hx : f x with
    | error e => simp [hx, bind, Except.bind]
    | ok y =>
      rw [List.findSome?_cons, hx, errorOf?_ok, ← ih]
      change errorOf? (xs.mapM f >>= fun ys => pure (y :: ys)) = _
      exact errorOf?_bind fun _ => rfl

/-- Looking for the same thing at some members finds it if there is such a member. -/
theorem findSome?_ite (p : α → Bool) (r : Option β) (xs : List α) :
    (xs.findSome? fun x => if p x then r else none) = if xs.any p then r else none := by
  induction xs with
  | nil => rfl
  | cons x xs ih =>
    rw [List.findSome?_cons, ih, List.any_cons]
    cases p x <;> cases r <;> simp

/-- What stands beside a list stands beside one of its members. -/
theorem mem_of_forall₂ {R : α → β → Prop} {xs : List α} {ys : List β} (h : List.Forall₂ R xs ys)
    {y : β} (hy : y ∈ ys) : ∃ x ∈ xs, R x y := by
  induction h with
  | nil => simp at hy
  | cons hr _ ih =>
    rcases List.mem_cons.mp hy with rfl | hm
    · exact ⟨_, List.mem_cons_self, hr⟩
    · obtain ⟨x, hx, hR⟩ := ih hm
      exact ⟨x, List.mem_cons_of_mem _ hx, hR⟩

theorem mem_of_forall₂_left {R : α → β → Prop} {xs : List α} {ys : List β} (h : List.Forall₂ R xs ys)
    {x : α} (hx : x ∈ xs) : ∃ y ∈ ys, R x y :=
  mem_of_forall₂ h.flip hx

theorem exists_mem_zip_of_forall₂ {R : α → β → Prop} {xs : List α} {ys : List β} (h : List.Forall₂ R xs ys)
    {x : α} (hx : x ∈ xs) : ∃ y, (x, y) ∈ xs.zip ys := by
  induction h with
  | nil => simp at hx
  | cons _ _ ih =>
    rcases List.mem_cons.mp hx with rfl | hm
    · exact ⟨_, List.mem_cons_self⟩
    · obtain ⟨y, hy⟩ := ih hm
      exact ⟨y, List.mem_cons_of_mem _ hy⟩

theorem map_eq_map_of_forall₂ {R : α → β → Prop} {f : α → ι} {g : β → ι} {xs : List α} {ys : List β}
    (h : List.Forall₂ R xs ys) (hR : ∀ {x y}, R x y → g y = f x) : ys.map g = xs.map f := by
  induction h with
  | nil => rfl
  | cons hr _ ih => rw [List.map_cons, List.map_cons, hR hr, ih]

theorem filterMap_forall₂ {f : α → Option β} {xs : List α} (h : ∀ x ∈ xs, ∃ y, f x = some y) :
    List.Forall₂ (fun x y => f x = some y) xs (xs.filterMap f) := by
  induction xs with
  | nil => exact .nil
  | cons x xs ih =>
    obtain ⟨y, hy⟩ := h x List.mem_cons_self
    rw [List.filterMap_cons_some hy]
    exact .cons hy (ih fun z hz => h z (List.mem_cons_of_mem _ hz))

/-- Looking from the end finds the last member. -/
theorem find?_reverse_eq_some_iff {p : α → Bool} {xs : List α} {x : α} :
    xs.reverse.find? p = some x ↔
      ∃ before after, xs = before ++ x :: after ∧ p x ∧ ∀ b ∈ after, ¬ p b := by
  rw [List.find?_eq_some_iff_append]
  constructor
  · rintro ⟨hx, after, before, h, hafter⟩
    refine ⟨before.reverse, after.reverse, ?_, hx, fun b hb => by simpa using hafter b (by simpa using hb)⟩
    rw [← List.reverse_reverse xs, h]
    simp
  · rintro ⟨before, after, rfl, hx, hafter⟩
    exact ⟨hx, after.reverse, before.reverse, by simp, fun b hb => by simpa using hafter b (by simpa using hb)⟩

/-- Where one of two measures is never less than the other and the sums agree, they agree. -/
theorem eq_of_sum_map_eq {f g : α → Nat} {xs : List α} (hle : ∀ x ∈ xs, f x ≤ g x)
    (hsum : (xs.map g).sum = (xs.map f).sum) {x : α} (hx : x ∈ xs) : f x = g x := by
  by_contra hne
  have hlt := List.sum_lt_sum f g hle ⟨x, hx, lt_of_le_of_ne (hle x hx) hne⟩
  exact hlt.ne hsum.symm

/-- Lists side by side: each member of the second stands in relation to its fellow in the first and to those
before that. -/
def InTurn (R : List α → α → β → Prop) (xs : List α) (ys : List β) : Prop :=
  xs.length = ys.length ∧
    ∀ before x after y, xs = before ++ x :: after → ys[before.length]? = some y → R before x y

theorem inTurn_nil_iff {R : List α → α → β → Prop} {ys : List β} : InTurn R [] ys ↔ ys = [] := by
  simp [InTurn, eq_comm]

theorem inTurn_cons_iff {R : List α → α → β → Prop} {x : α} {xs : List α} {ys : List β} :
    InTurn R (x :: xs) ys ↔
      ∃ y rest, ys = y :: rest ∧ R [] x y ∧ InTurn (fun before => R (x :: before)) xs rest := by
  constructor
  · rintro ⟨hl, h⟩
    cases ys with
    | nil => simp at hl
    | cons y rest =>
      refine ⟨y, rest, rfl, h [] x xs y rfl rfl, by simpa using hl, ?_⟩
      intro before x' after y' hxs hy
      exact h (x :: before) x' after y' (by simp [hxs]) (by simpa using hy)
  · rintro ⟨y, rest, rfl, hx, hl, h⟩
    refine ⟨by simpa using hl, ?_⟩
    intro before x' after y' hxs hy
    cases before with
    | nil =>
      obtain ⟨rfl, rfl⟩ := List.cons.inj hxs
      obtain rfl : y = y' := by simpa using hy
      exact hx
    | cons b before =>
      obtain ⟨rfl, rfl⟩ := List.cons.inj hxs
      exact h before x' after y' rfl (by simpa using hy)

theorem InTurn.exists_right {R : List α → α → β → Prop} {xs : List α} {ys : List β} (h : InTurn R xs ys) {x : α}
    (hx : x ∈ xs) : ∃ y ∈ ys, ∃ before, R before x y := by
  obtain ⟨before, after, rfl⟩ := List.append_of_mem hx
  have hlt : before.length < ys.length := by
    rw [← h.1]
    simp
  exact ⟨_, List.getElem_mem hlt, before, h.2 before x after _ rfl (List.getElem?_eq_getElem hlt)⟩

theorem InTurn.exists_left {R : List α → α → β → Prop} {xs : List α} {ys : List β} (h : InTurn R xs ys) {y : β}
    (hy : y ∈ ys) : ∃ x ∈ xs, ∃ before, R before x y := by
  obtain ⟨i, hi, rfl⟩ := List.getElem_of_mem hy
  have hlt : i < xs.length := by rwa [h.1]
  refine ⟨xs[i], List.getElem_mem hlt, xs.take i, h.2 (xs.take i) xs[i] (xs.drop (i + 1)) _ ?_ ?_⟩
  · rw [List.getElem_cons_drop, List.take_append_drop]
  · rw [List.length_take_of_le hlt.le]
    exact List.getElem?_eq_getElem hi

/-- A scan that takes along the keys of what it has passed. -/
theorem inTurn_iff_eq_scan {key : α → ι} {f : List ι → α → β} {scan : List ι → List α → List β}
    (hnil : ∀ seen, scan seen [] = [])
    (hcons : ∀ seen x xs, scan seen (x :: xs) = f seen x :: scan (key x :: seen) xs)
    {R : List α → α → β → Prop} (hR : ∀ before x y, R before x y ↔ y = f (before.map key).reverse x)
    {xs : List α} {ys : List β} : InTurn R xs ys ↔ ys = scan [] xs := by
  have hall (met : List α) : InTurn (fun before => R (met ++ before)) xs ys ↔
      ys = scan (met.map key).reverse xs := by
    induction xs generalizing met ys with
    | nil => rw [inTurn_nil_iff, hnil]
    | cons x xs ih =>
      have hmet : (fun before => R (met ++ x :: before)) = fun before => R ((met ++ [x]) ++ before) := by
        simp
      rw [inTurn_cons_iff, hcons]
      simp only [hR, List.append_nil, hmet, ih (met ++ [x])]
      simp
  simpa using hall []

variable [DecidableEq ι]

/-- A key at the end counts only if it was not met before. -/
theorem eraseDups_concat (keys : List ι) (k : ι) :
    (keys ++ [k]).eraseDups = if k ∈ keys then keys.eraseDups else keys.eraseDups ++ [k] := by
  rw [List.eraseDups_append]
  by_cases hk : k ∈ keys
  · simp [List.removeAll, hk]
  · simp [List.removeAll, hk, List.eraseDups_cons]

theorem nodup_eraseDups (keys : List ι) : keys.eraseDups.Nodup := by
  induction keys using List.reverseRecOn with
  | nil => exact List.nodup_nil
  | append_singleton keys k ih =>
    rw [eraseDups_concat]
    split_ifs with hk
    · exact ih
    · have hnot : k ∉ keys.eraseDups := fun hm => hk (List.mem_eraseDups.mp hm)
      rw [← List.concat_eq_append]
      exact ih.concat hnot

/-- Keys in the order of first meeting are in the order of their first places. -/
theorem pairwise_idxOf_eraseDups (keys : List ι) :
    keys.eraseDups.Pairwise fun k l => keys.idxOf k < keys.idxOf l := by
  induction keys using List.reverseRecOn with
  | nil => exact .nil
  | append_singleton keys k ih =>
    have hold : keys.eraseDups.Pairwise fun i j => (keys ++ [k]).idxOf i < (keys ++ [k]).idxOf j := by
      refine ih.imp_of_mem fun hi hj hlt => ?_
      rwa [List.idxOf_append_of_mem (List.mem_eraseDups.mp hi),
        List.idxOf_append_of_mem (List.mem_eraseDups.mp hj)]
    rw [eraseDups_concat]
    split_ifs with hk
    · exact hold
    · refine List.pairwise_append.mpr ⟨hold, List.pairwise_singleton _ _, fun i hi j hj => ?_⟩
      obtain rfl := List.mem_singleton.mp hj
      have him := List.mem_eraseDups.mp hi
      rw [List.idxOf_append_of_mem him, List.idxOf_append_of_notMem hk]
      have hlt := List.idxOf_lt_length_of_mem him
      omega

/-- Members counted by their keys, each key once. -/
theorem sum_map_filter_of_nodup {key : α → ι} {keys : List ι} (hn : keys.Nodup) {xs : List α}
    (hmem : ∀ x ∈ xs, key x ∈ keys) (f : α → Nat) :
    (keys.map fun k => ((xs.filter fun x => key x == k).map f).sum).sum = (xs.map f).sum := by
  induction xs with
  | nil => simp
  | cons x xs ih =>
    have hcons (k : ι) : (((x :: xs).filter fun x => key x == k).map f).sum =
        (if key x = k then f x else 0) + ((xs.filter fun x => key x == k).map f).sum := by
      by_cases hk : key x = k <;> simp [hk]
    have hx : (keys.map fun k => if key x = k then f x else 0).sum = f x := by
      rw [List.sum_map_eq_nsmul_single (key x) _ fun k hk _ => if_neg hk.symm,
        List.count_eq_one_of_mem hn (hmem x List.mem_cons_self), if_pos rfl, one_smul]
    simp only [hcons, List.sum_map_add, hx, ih fun y hy => hmem y (List.mem_cons_of_mem _ hy),
      List.map_cons, List.sum_cons]

/-- Every member of a list has its key, and each key is counted once. -/
theorem sum_length_filter_eraseDups (key : α → ι) (xs : List α) :
    ((xs.map key).eraseDups.map fun k => (xs.filter fun x => key x == k).length).sum = xs.length := by
  have h := sum_map_filter_of_nodup (nodup_eraseDups (xs.map key))
    (fun x hx => List.mem_eraseDups.mpr (List.mem_map_of_mem hx)) fun _ => 1
  simpa using h

/-- In a list in order of position, a key that is met before another has a member before all of its. -/
theorem pairwise_eraseDups_of_pairwise (key : α → ι) (pos : α → Nat) (xs : List α)
    (hs : xs.Pairwise fun a b => pos a ≤ pos b) :
    (xs.map key).eraseDups.Pairwise fun i j =>
      ∀ b ∈ xs, key b = j → ∃ a ∈ xs, key a = i ∧ pos a ≤ pos b := by
  induction xs using List.reverseRecOn with
  | nil => exact .nil
  | append_singleton xs x ih =>
    obtain ⟨hs, _, hx⟩ := List.pairwise_append.mp hs
    -- Whatever key was met has a member before the last.
    have hmet {i : ι} (hi : i ∈ (xs.map key).eraseDups) :
        ∃ a ∈ xs ++ [x], key a = i ∧ pos a ≤ pos x := by
      obtain ⟨a, ha, hk⟩ := List.mem_map.mp (List.mem_eraseDups.mp hi)
      exact ⟨a, List.mem_append_left _ ha, hk, hx a ha x (List.mem_singleton_self x)⟩
    have hold : (xs.map key).eraseDups.Pairwise fun i j =>
        ∀ b ∈ xs ++ [x], key b = j → ∃ a ∈ xs ++ [x], key a = i ∧ pos a ≤ pos b := by
      refine (ih hs).imp_of_mem fun hi _ h b hb hk => ?_
      rcases List.mem_append.mp hb with hm | hm
      · obtain ⟨a, ha, hp⟩ := h b hm hk
        exact ⟨a, List.mem_append_left _ ha, hp⟩
      · obtain rfl := List.mem_singleton.mp hm
        exact hmet hi
    rw [List.map_append, List.map_singleton, eraseDups_concat]
    split_ifs with hk
    · exact hold
    · refine List.pairwise_append.mpr ⟨hold, List.pairwise_singleton _ _, ?_⟩
      intro i hi j hj b hb hb'
      obtain rfl := List.mem_singleton.mp hj
      rcases List.mem_append.mp hb with hm | hm
      · exact absurd (hb' ▸ List.mem_map_of_mem hm) hk
      · obtain rfl := List.mem_singleton.mp hm
        exact hmet hi

end ComponentDoc
