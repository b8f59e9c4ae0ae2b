import ComponentDoc.Proofs.Path.Join

namespace ComponentDoc.Path

open Text

theorem isIdle_iff {piece : List Char} : isIdle piece ↔ part? piece = none := by
  unfold isIdle part?
  split_ifs with hidle <;> simp_all

theorem filterMap_dropWhile_isIdle (pieces : List (List Char)) :
    (pieces.dropWhile isIdle).filterMap part? = pieces.filterMap part? := by
  induction pieces with
  | nil => rfl
  | cons piece pieces ih =>
    by_cases hidle : isIdle piece
    · rw [List.dropWhile_cons_of_pos hidle, ih, List.filterMap_cons_none (isIdle_iff.mp hidle)]
    · rw [List.dropWhile_cons_of_neg hidle]

/-- Pieces from the first that counts to the last. -/
def trimmed (pieces : List (List Char)) : List (List Char) :=
  ((pieces.dropWhile isIdle).reverse.dropWhile isIdle).reverse

theorem filterMap_trimmed (pieces : List (List Char)) :
    (trimmed pieces).filterMap part? = pieces.filterMap part? := by
  rw [trimmed, List.filterMap_reverse, filterMap_dropWhile_isIdle, List.filterMap_reverse, List.reverse_reverse,
    filterMap_dropWhile_isIdle]

theorem mem_of_mem_trimmed {pieces : List (List Char)} {piece : List Char} (h : piece ∈ trimmed pieces) :
    piece ∈ pieces := by
  have hdrop := (List.dropWhile_sublist _).subset (List.mem_reverse.mp h)
  exact (List.dropWhile_sublist _).subset (List.mem_reverse.mp hdrop)

theorem not_isIdle_of_trimmed {pieces rest : List (List Char)} {first : List Char}
    (h : trimmed pieces = first :: rest) : ¬ isIdle first := by
  obtain ⟨more, hmore⟩ : trimmed pieces <+: pieces.dropWhile isIdle := List.rdropWhile_prefix _ _
  have hhead : (pieces.dropWhile isIdle).head? = some first := by
    rw [← hmore, h]
    rfl
  have hnot := List.head?_dropWhile_not isIdle pieces
  rw [hhead] at hnot
  simpa using hnot

theorem splitOn_ofPieces {pieces : List (List Char)} (hne : pieces ≠ []) (h : ∀ piece ∈ pieces, '/' ∉ piece) :
    splitOn '/' (ofPieces pieces) = pieces := by
  induction pieces with
  | nil => exact absurd rfl hne
  | cons piece pieces ih =>
    obtain ⟨hpiece, hpieces⟩ := List.forall_mem_cons.mp h
    cases pieces with
    | nil => exact splitOn_of_not_mem hpiece
    | cons next pieces =>
      rw [ofPieces, splitOn_append, splitOn_of_not_mem hpiece, ih (by simp) hpieces, List.singleton_append]
      simp

theorem isAbsolute_ofPieces {first : List Char} (hfirst : first ≠ []) (hslash : '/' ∉ first)
    (rest : List (List Char)) : isAbsolute (ofPieces (first :: rest)) = false := by
  cases rest with
  | nil => exact isAbsolute_eq_false_of_not_mem hslash
  | cons next rest =>
    rw [ofPieces, isAbsolute_append hfirst]
    · exact isAbsolute_eq_false_of_not_mem hslash
    · simp

/-- What is left of the pieces of a path has the components that come after those of the folder. -/
theorem filterMap_of_dropParts? {ps : List Part} {pieces rest : List (List Char)}
    (h : dropParts? ps pieces = some rest) :
    pieces.filterMap part? = ps ++ rest.filterMap part? ∧ ∀ piece ∈ rest, piece ∈ pieces := by
  fun_induction dropParts? ps pieces with
  | case1 pieces =>
    obtain rfl := Option.some.inj h
    exact ⟨rfl, fun _ => id⟩
  | case2 => cases h
  | case3 part ps piece pieces hidle ih =>
    obtain ⟨hparts, hmem⟩ := ih h
    exact ⟨by rw [List.filterMap_cons_none hidle, hparts], fun p hp => List.mem_cons_of_mem _ (hmem p hp)⟩
  | case4 part ps piece pieces found hfound heq ih =>
    obtain ⟨hparts, hmem⟩ := ih h
    obtain rfl := beq_iff_eq.mp heq
    exact ⟨by rw [List.filterMap_cons_some hfound, hparts, List.cons_append],
      fun p hp => List.mem_cons_of_mem _ (hmem p hp)⟩
  | case5 => cases h

/-- A path seen from a folder is relative, and its components are those of the path after those of the folder. -/
theorem relativeTo?_spec {path folder short : List Char} (h : relativeTo? path folder = some short) :
    isAbsolute path ∧ isAbsolute short = false ∧
      parts path = parts folder ++ (splitOn '/' short).filterMap part? := by
  unfold relativeTo? at h
  split_ifs at h with habs
  obtain ⟨hpath, hfolder⟩ : isAbsolute path ∧ isAbsolute folder := by simpa using habs
  obtain ⟨path, rfl⟩ := exists_of_isAbsolute hpath
  obtain ⟨folder, rfl⟩ := exists_of_isAbsolute hfolder
  rw [splitOn_cons_self, parts_cons_slash, List.tail_cons, List.tail_cons] at h
  obtain ⟨pieces, hdrop, hshort⟩ := Option.map_eq_some_iff.mp h
  change ofPieces (trimmed pieces) = short at hshort
  obtain ⟨hparts, hmem⟩ := filterMap_of_dropParts? hdrop
  have hslash (piece : List Char) (hpiece : piece ∈ trimmed pieces) : '/' ∉ piece := fun h =>
    (of_mem_splitOn (hmem piece (mem_of_mem_trimmed hpiece)) h).1 rfl
  rw [parts_cons_slash, parts_cons_slash, hparts, List.cons_append, ← filterMap_trimmed pieces, ← hshort]
  cases htrimmed : trimmed pieces with
  | nil => exact ⟨hpath, rfl, rfl⟩
  | cons first rest =>
    rw [htrimmed] at hslash
    have hfirst : first ≠ [] := by
      rintro rfl
      exact not_isIdle_of_trimmed htrimmed rfl
    refine ⟨hpath, isAbsolute_ofPieces hfirst (hslash first List.mem_cons_self) rest, ?_⟩
    rw [splitOn_ofPieces (by simp) hslash]

/-- Two paths that a folder sees as one are the same. -/
theorem parts_eq_of_relativeTo? {path other folder short : List Char} (hpath : relativeTo? path folder = some short)
    (hother : relativeTo? other folder = some short) : parts path = parts other := by
  rw [(relativeTo?_spec hpath).2.2, (relativeTo?_spec hother).2.2]

theorem relativeTo?_eq_none {path : List Char} (h : isAbsolute path = false) (folder : List Char) :
    relativeTo? path folder = none := by
  simp [relativeTo?, h]

/-- Each path being seen from a folder, if it is inside, two different paths look the same just when one of them is what
the other is seen as. -/
theorem getD_relativeTo?_eq_iff {path other : List Char} (folder : List Char) (hparts : parts path ≠ parts other) :
    (relativeTo? path folder).getD path = (relativeTo? other folder).getD other ↔
      relativeTo? path folder = some other ∨ relativeTo? other folder = some path := by
  constructor
  · intro h
    cases hpath : relativeTo? path folder with
    | none =>
      cases hother : relativeTo? other folder with
      | none =>
        rw [hpath, hother] at h
        exact absurd (congrArg parts h) hparts
      | some short =>
        rw [hpath, hother] at h
        exact .inr (congrArg some h.symm)
    | some short =>
      cases hother : relativeTo? other folder with
      | none =>
        rw [hpath, hother] at h
        exact .inl (congrArg some h)
      | some short' =>
        rw [hpath, hother] at h
        obtain rfl : short = short' := h
        exact absurd (parts_eq_of_relativeTo? hpath hother) hparts
  · rintro (h | h)
    · rw [relativeTo?_eq_none (relativeTo?_spec h).2.1, h]
      rfl
    · rw [relativeTo?_eq_none (relativeTo?_spec h).2.1, h]
      rfl

theorem isAbsolute_ofReversed (pieces : List (List Char)) : isAbsolute (ofReversed [] pieces) := by
  unfold ofReversed
  cases hpieces : pieces.reverse with
  | nil => simp_all [isAbsolute]
  | cons piece rest =>
    have hne : pieces ≠ [] := by
      rintro rfl
      cases hpieces
    simp [hne, ofPieces, isAbsolute]

theorem isAbsolute_of_mem_foldersAbove {pieces : List (List Char)} {folder : List Char}
    (h : folder ∈ foldersAbove [] pieces) : isAbsolute folder := by
  induction pieces with
  | nil => cases h
  | cons piece pieces ih =>
    rw [foldersAbove] at h
    split_ifs at h with hidle
    · exact ih h
    · rcases List.mem_cons.mp h with rfl | h
      · exact isAbsolute_ofReversed _
      · exact ih h

/-- The folders around an absolute path have absolute paths. -/
theorem isAbsolute_of_mem_above {path folder : List Char} (hpath : isAbsolute path) (h : folder ∈ above path) :
    isAbsolute folder := by
  obtain ⟨rest, rfl⟩ := exists_of_isAbsolute hpath
  rw [above, splitOn_cons_self] at h
  exact isAbsolute_of_mem_foldersAbove h

theorem splitOn_ofReversed {pieces : List (List Char)} (hne : pieces ≠ []) (h : ∀ piece ∈ pieces, '/' ∉ piece) :
    splitOn '/' (ofReversed [] pieces) = [] :: pieces.reverse := by
  rw [ofReversed, if_neg (by simpa using hne)]
  refine splitOn_ofPieces (by simp) ?_
  simpa using h

theorem parts_ofReversed {pieces : List (List Char)} (h : ∀ piece ∈ pieces, '/' ∉ piece) :
    parts (ofReversed [] pieces) = .root :: (pieces.filterMap part?).reverse := by
  by_cases hnil : pieces = []
  · subst hnil
    rfl
  · rw [parts_eq (ne_nil_of_isAbsolute (isAbsolute_ofReversed pieces)) (splitOn_ofReversed hnil h),
      List.filterMap_reverse]
    rfl

theorem above_ofReversed {pieces : List (List Char)} (h : ∀ piece ∈ pieces, '/' ∉ piece) :
    above (ofReversed [] pieces) = foldersAbove [] pieces := by
  by_cases hnil : pieces = []
  · subst hnil
    rfl
  · rw [above, splitOn_ofReversed hnil h]
    simp

theorem foldersAbove_dropWhile (first : List Char) (pieces : List (List Char)) :
    foldersAbove first (pieces.dropWhile isIdle) = foldersAbove first pieces := by
  induction pieces with
  | nil => rfl
  | cons piece pieces ih =>
    by_cases hidle : isIdle piece
    · rw [List.dropWhile_cons_of_pos hidle, ih, foldersAbove, if_pos hidle]
    · rw [List.dropWhile_cons_of_neg hidle]

/-- The nearest folder above what pieces spell, the last one first, lacks the last component of that path, and the
others are above it. Above a path that has no component but the root there is none. -/
theorem foldersAbove_cases {pieces : List (List Char)} (h : ∀ piece ∈ pieces, '/' ∉ piece) :
    (foldersAbove [] pieces = [] ∧ pieces.filterMap part? = []) ∨
    ∃ folder last, foldersAbove [] pieces = folder :: above folder ∧ isAbsolute folder ∧
      .root :: (pieces.filterMap part?).reverse = parts folder ++ [last] := by
  induction pieces with
  | nil => exact .inl ⟨rfl, rfl⟩
  | cons piece pieces ih =>
    obtain ⟨-, hpieces⟩ := List.forall_mem_cons.mp h
    by_cases hidle : isIdle piece
    · rw [foldersAbove, if_pos hidle, List.filterMap_cons_none (isIdle_iff.mp hidle)]
      exact ih hpieces
    · obtain ⟨last, hlast⟩ := Option.ne_none_iff_exists'.mp (mt isIdle_iff.mpr hidle)
      have hkept (p : List Char) (hp : p ∈ pieces.dropWhile isIdle) : '/' ∉ p :=
        hpieces p ((List.dropWhile_sublist _).subset hp)
      refine .inr ⟨ofReversed [] (pieces.dropWhile isIdle), last, ?_, isAbsolute_ofReversed _, ?_⟩
      · rw [foldersAbove, if_neg hidle, above_ofReversed hkept, foldersAbove_dropWhile]
      · rw [parts_ofReversed hkept, filterMap_dropWhile_isIdle, List.filterMap_cons_some hlast, List.reverse_cons,
          List.cons_append]

/-- Going up from an absolute path takes off its last component, and ends at the root. -/
theorem above_cases {path : List Char} (hpath : isAbsolute path) :
    (above path = [] ∧ parts path = [.root]) ∨
    ∃ folder last, above path = folder :: above folder ∧ isAbsolute folder ∧ parts path = parts folder ++ [last] := by
  obtain ⟨rest, rfl⟩ := exists_of_isAbsolute hpath
  have hslash (piece : List Char) (hpiece : piece ∈ (splitOn '/' rest).reverse) : '/' ∉ piece := fun h =>
    (of_mem_splitOn (List.mem_reverse.mp hpiece) h).1 rfl
  have hcases := foldersAbove_cases hslash
  rw [List.filterMap_reverse, List.reverse_reverse, List.reverse_eq_nil_iff] at hcases
  rw [above, splitOn_cons_self, parts_cons_slash]
  simpa using hcases

theorem parts_of_parent?_eq_none {path : List Char} (hpath : isAbsolute path) (h : parent? path = none) :
    parts path = [.root] := by
  rcases above_cases hpath with ⟨-, hroot⟩ | ⟨folder, last, habove, -⟩
  · exact hroot
  · rw [parent?, habove] at h
    cases h

theorem parent?_spec {path folder : List Char} (hpath : isAbsolute path) (h : parent? path = some folder) :
    above path = folder :: above folder ∧ isAbsolute folder ∧ ∃ last, parts path = parts folder ++ [last] := by
  rcases above_cases hpath with ⟨habove, -⟩ | ⟨up, last, habove, habsolute, hparts⟩
  · rw [parent?, habove] at h
    cases h
  · rw [parent?, habove] at h
    obtain rfl := Option.some.inj h
    exact ⟨habove, habsolute, last, hparts⟩

end ComponentDoc.Path
