import ComponentDoc.Path.Relation
import ComponentDoc.Proofs.Text.Trim

namespace ComponentDoc

namespace Text

theorem splitOn_ne_nil (d : Char) (cs : List Char) : splitOn d cs ≠ [] := by
  rw [splitOn_eq]
  exact List.splitOn_ne_nil d cs

theorem splitOn_append (d : Char) (xs ys : List Char) :
    splitOn d (xs ++ d :: ys) = splitOn d xs ++ splitOn d ys := by
  induction xs with
  | nil =>
    obtain ⟨piece, pieces, hpieces⟩ := List.exists_cons_of_ne_nil (splitOn_ne_nil d ys)
    simp [splitOn, hpieces]
  | cons x xs ih =>
    obtain ⟨piece, pieces, hpieces⟩ := List.exists_cons_of_ne_nil (splitOn_ne_nil d xs)
    rw [List.cons_append, splitOn, splitOn, ih, hpieces]
    by_cases hx : x == d
    · simp [hx]
    · simp [hx]

theorem splitOn_cons_self (d : Char) (cs : List Char) : splitOn d (d :: cs) = [] :: splitOn d cs :=
  splitOn_append d [] cs

end Text

namespace Path

open Text

/-- A name that an entry of a folder can have. -/
def IsName (name : List Char) : Prop :=
  name ≠ [] ∧ name ≠ ['.'] ∧ name ≠ ['.', '.'] ∧ '/' ∉ name

instance (name : List Char) : Decidable (IsName name) :=
  inferInstanceAs (Decidable (_ ∧ _ ∧ _ ∧ _))

/-- The path of what the pieces lead to from a folder. -/
def under (folder : List Char) (pieces : List (List Char)) : List Char :=
  pieces.foldl join folder

@[simp] theorem under_nil (folder : List Char) : under folder [] = folder := rfl

@[simp] theorem under_cons (folder piece : List Char) (pieces : List (List Char)) :
    under folder (piece :: pieces) = under (join folder piece) pieces := rfl

theorem under_append (folder : List Char) (pieces more : List (List Char)) :
    under folder (pieces ++ more) = under (under folder pieces) more :=
  List.foldl_append

section

variable {path piece : List Char}

theorem isAbsolute_eq_false_of_not_mem (h : '/' ∉ piece) : isAbsolute piece = false := by
  cases piece with
  | nil => rfl
  | cons c cs =>
    have hc : c ≠ '/' := fun hc => h (hc ▸ List.mem_cons_self)
    unfold isAbsolute
    split
    · next heq => exact absurd (List.cons.inj heq).1 hc
    · rfl

theorem exists_of_isAbsolute (h : isAbsolute path) : ∃ rest, path = '/' :: rest := by
  unfold isAbsolute at h
  split at h
  · exact ⟨_, rfl⟩
  · cases h

theorem ne_nil_of_isAbsolute (h : isAbsolute path) : path ≠ [] := by
  rintro rfl
  cases h

theorem join_eq (hpath : path ≠ []) (hpiece : isAbsolute piece = false) :
    join path piece = if path.getLast? = some '/' then path ++ piece else path ++ '/' :: piece := by
  simp [join, hpiece, hpath]

theorem join_ne_nil (hpath : path ≠ []) (hpiece : isAbsolute piece = false) : join path piece ≠ [] := by
  rw [join_eq hpath hpiece]
  split_ifs <;> simp [hpath]

theorem isAbsolute_append (hpath : path ≠ []) (more : List Char) :
    isAbsolute (path ++ more) = isAbsolute path := by
  obtain ⟨c, cs, rfl⟩ := List.exists_cons_of_ne_nil hpath
  by_cases hc : c = '/'
  · subst hc
    rfl
  · simp [isAbsolute, hc]

theorem isAbsolute_join (hpath : path ≠ []) (hpiece : isAbsolute piece = false) :
    isAbsolute (join path piece) = isAbsolute path := by
  rw [join_eq hpath hpiece]
  split_ifs <;> exact isAbsolute_append hpath _

theorem isAbsolute_join_of_isAbsolute (hpath : isAbsolute path) (other : List Char) : isAbsolute (join path other) := by
  by_cases hother : isAbsolute other
  · simp [join, hother]
  · exact (isAbsolute_join (ne_nil_of_isAbsolute hpath) (by simpa using hother)).trans hpath

theorem suffix_join (path other : List Char) : other <:+ join path other := by
  unfold join
  split_ifs
  · exact List.suffix_refl other
  · exact List.suffix_append path other
  · exact (List.suffix_cons '/' other).trans (List.suffix_append path _)

/-- A path that is joined to another one can get its last piece before or after. -/
theorem join_join (base : List Char) (hpath : path ≠ []) (hpiece : isAbsolute piece = false) :
    join base (join path piece) = join (join base path) piece := by
  by_cases habs : isAbsolute path
  · have hlong : isAbsolute (join path piece) := (isAbsolute_join hpath hpiece).trans habs
    simp [join.eq_def base, habs, hlong]
  · have hshort : isAbsolute path = false := by simpa using habs
    have hlong : isAbsolute (join path piece) = false := (isAbsolute_join hpath hpiece).trans hshort
    by_cases hbase : base = []
    · simp [join.eq_def [], hbase]
    · have hlast (before : List Char) : (before ++ path).getLast? = path.getLast? := by
        obtain ⟨front, c, rfl⟩ := List.eq_nil_or_concat path |>.resolve_left hpath
        simp
      have hslash : (base ++ '/' :: path).getLast? = path.getLast? := by
        rw [← List.singleton_append, ← List.append_assoc]
        exact hlast _
      rw [join_eq hbase hlong, join_eq hbase hshort, join_eq hpath hpiece]
      split_ifs with hb hp hp
      · rw [join_eq (by simp [hpath]) hpiece, hlast, if_pos hp, List.append_assoc]
      · rw [join_eq (by simp [hpath]) hpiece, hlast, if_neg hp, List.append_assoc]
      · rw [join_eq (by simp) hpiece, hslash, if_pos hp, List.append_assoc, List.cons_append]
      · rw [join_eq (by simp) hpiece, hslash, if_neg hp, List.append_assoc, List.cons_append]

/-- The pieces of a longer path: those of the path, without the empty one after a slash at its end, and the new one. -/
theorem splitOn_join (hpath : path ≠ []) (hpiece : '/' ∉ piece) : ∃ front, front ≠ [] ∧
    splitOn '/' (join path piece) = front ++ [piece] ∧
    (splitOn '/' path = front ∨ splitOn '/' path = front ++ [[]]) := by
  rw [join_eq hpath (isAbsolute_eq_false_of_not_mem hpiece)]
  split_ifs with hlast
  · obtain ⟨front, hfront⟩ := List.getLast?_eq_some_iff.mp hlast
    refine ⟨splitOn '/' front, splitOn_ne_nil _ _, ?_, .inr ?_⟩
    · rw [hfront, List.append_assoc, List.singleton_append, splitOn_append, splitOn_of_not_mem hpiece]
    · rw [hfront, splitOn_append]
      rfl
  · refine ⟨splitOn '/' path, splitOn_ne_nil _ _, ?_, .inl rfl⟩
    rw [splitOn_append, splitOn_of_not_mem hpiece]

/-- The component that the first piece of a path stands for. -/
def firstParts (first : List Char) : List Part :=
  if first.isEmpty then [.root] else if first == ['.'] then [.here] else (part? first).toList

theorem parts_eq {first : List Char} {rest : List (List Char)} (hpath : path ≠ [])
    (hpieces : splitOn '/' path = first :: rest) : parts path = firstParts first ++ rest.filterMap part? := by
  have hne : ¬ path.isEmpty := by simpa using hpath
  unfold parts firstParts
  rw [hpieces]
  simp only [if_neg hne]
  split_ifs <;> rfl

theorem parts_cons_slash (rest : List Char) : parts ('/' :: rest) = .root :: (splitOn '/' rest).filterMap part? :=
  parts_eq (by simp) (splitOn_cons_self '/' rest)

theorem parts_join (hpath : path ≠ []) (hpiece : '/' ∉ piece) :
    parts (join path piece) = parts path ++ (part? piece).toList := by
  have hne := join_ne_nil hpath (isAbsolute_eq_false_of_not_mem hpiece)
  obtain ⟨front, hfront, hlong, hshort⟩ := splitOn_join hpath hpiece
  obtain ⟨first, rest, rfl⟩ := List.exists_cons_of_ne_nil hfront
  have hpart : [piece].filterMap part? = (part? piece).toList := by
    cases hp : part? piece <;> simp [hp]
  have hempty : part? [] = none := rfl
  rw [List.cons_append] at hlong hshort
  rw [parts_eq hne hlong, List.filterMap_append, hpart, ← List.append_assoc]
  rcases hshort with hshort | hshort
  · rw [parts_eq hpath hshort]
  · rw [parts_eq hpath hshort, List.filterMap_append]
    simp [hempty]

theorem part?_eq_some {name : List Char} (h : IsName name) : part? name = some (.name name) := by
  simp [part?, h.1, h.2.1, h.2.2.1]

theorem fileName?_join {name : List Char} (hpath : path ≠ []) (hname : IsName name) :
    fileName? (join path name) = some name := by
  simp [fileName?, parts_join hpath hname.2.2.2, part?_eq_some hname]

end

theorem under_ne_nil {folder : List Char} {pieces : List (List Char)} (hfolder : folder ≠ [])
    (hpieces : ∀ piece ∈ pieces, '/' ∉ piece) : under folder pieces ≠ [] := by
  induction pieces generalizing folder with
  | nil => exact hfolder
  | cons piece pieces ih =>
    have hpiece := isAbsolute_eq_false_of_not_mem (hpieces piece List.mem_cons_self)
    exact ih (join_ne_nil hfolder hpiece) fun p hp => hpieces p (List.mem_cons_of_mem _ hp)

theorem isAbsolute_under {folder : List Char} {pieces : List (List Char)} (hfolder : folder ≠ [])
    (hpieces : ∀ piece ∈ pieces, '/' ∉ piece) : isAbsolute (under folder pieces) = isAbsolute folder := by
  induction pieces generalizing folder with
  | nil => rfl
  | cons piece pieces ih =>
    have hpiece := isAbsolute_eq_false_of_not_mem (hpieces piece List.mem_cons_self)
    rw [under_cons, ih (join_ne_nil hfolder hpiece) fun p hp => hpieces p (List.mem_cons_of_mem _ hp),
      isAbsolute_join hfolder hpiece]

theorem fileName?_under {folder name : List Char} {names : List (List Char)} (hfolder : folder ≠ [])
    (hnames : ∀ n ∈ names, IsName n) (hlast : names.getLast? = some name) :
    fileName? (under folder names) = some name := by
  obtain ⟨front, rfl⟩ := List.getLast?_eq_some_iff.mp hlast
  have hfront : under folder front ≠ [] :=
    under_ne_nil hfolder fun n hn => (hnames n (List.mem_append_left _ hn)).2.2.2
  rw [under_append]
  exact fileName?_join hfront (hnames name (List.mem_append_right _ List.mem_cons_self))

end Path

end ComponentDoc
