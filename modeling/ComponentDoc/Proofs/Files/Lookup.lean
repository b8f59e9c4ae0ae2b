import ComponentDoc.Files.Scan
import ComponentDoc.Proofs.Path.Join

namespace ComponentDoc

open Text ComponentDoc.Path

namespace FileTree

/-- The entries of each folder have names that entries can have, and no two of them the same. -/
inductive WellFormed : FileTree → Prop where
  | file {content : ByteArray} : WellFormed (.file content)
  | folder {entries : List (List Char × FileTree)} (distinct : (entries.map Prod.fst).Nodup)
      (names : ∀ e ∈ entries, IsName e.1) (trees : ∀ e ∈ entries, WellFormed e.2) :
      WellFormed (.folder entries)

/-- What names lead to in a tree. -/
def at? (tree : FileTree) : List (List Char) → Option FileTree
  | [] => some tree
  | name :: names => (tree.child? name).bind fun child => child.at? names

theorem child?_folder_eq_some_iff {entries : List (List Char × FileTree)} {name : List Char} {child : FileTree}
    (h : (entries.map Prod.fst).Nodup) :
    (FileTree.folder entries).child? name = some child ↔ (name, child) ∈ entries := by
  unfold child? FileTree.entries
  rw [Option.map_eq_some_iff]
  constructor
  · rintro ⟨⟨found, tree⟩, hfind, rfl⟩
    have hname : found = name := by simpa using List.find?_some hfind
    subst hname
    exact List.mem_of_find?_eq_some hfind
  · intro hmem
    obtain ⟨e, he⟩ : ∃ e, entries.find? (·.1 == name) = some e :=
      Option.isSome_iff_exists.mp (List.find?_isSome.mpr ⟨_, hmem, by simp⟩)
    have hname : e.1 = name := by simpa using List.find?_some he
    have hsame : e = (name, child) :=
      List.inj_on_of_nodup_map h (List.mem_of_find?_eq_some he) hmem hname
    exact ⟨e, he, by rw [hsame]⟩

theorem WellFormed.child {tree child : FileTree} {name : List Char} (htree : tree.WellFormed)
    (h : tree.child? name = some child) : child.WellFormed := by
  cases htree with
  | file => cases h
  | folder distinct names trees => exact trees _ ((child?_folder_eq_some_iff distinct).mp h)

/-- Something is found in a tree if it is found there itself or in one of the entries. In a well-formed tree it is
then found at what some names lead to. -/
theorem WellFormed.found_iff (found here : List Char → FileTree → Prop)
    (hfile : ∀ path content, found path (.file content) ↔ here path (.file content))
    (hfolder : ∀ path entries, found path (.folder entries) ↔
      here path (.folder entries) ∨ ∃ e ∈ entries, found (join path e.1) e.2)
    {tree : FileTree} (htree : tree.WellFormed) (path : List Char) :
    found path tree ↔ ∃ names, (∀ n ∈ names, IsName n) ∧
      ∃ target, tree.at? names = some target ∧ here (under path names) target := by
  induction htree generalizing path with
  | @file content =>
    rw [hfile]
    constructor
    · intro h
      exact ⟨[], by simp, _, rfl, h⟩
    · rintro ⟨names, _, target, hat, h⟩
      cases names with
      | nil =>
        obtain rfl := Option.some.inj hat
        exact h
      | cons name names => cases hat
  | @folder entries distinct names trees ih =>
    rw [hfolder]
    constructor
    · rintro (h | ⟨e, he, h⟩)
      · exact ⟨[], by simp, _, rfl, h⟩
      · obtain ⟨more, hmore, target, hat, h⟩ := (ih e he (join path e.1)).mp h
        have hchild : (FileTree.folder entries).child? e.1 = some e.2 :=
          (child?_folder_eq_some_iff distinct).mpr he
        refine ⟨e.1 :: more, List.forall_mem_cons.mpr ⟨names e he, hmore⟩, target, ?_, h⟩
        rw [at?, hchild]
        exact hat
    · rintro ⟨more, hmore, target, hat, h⟩
      cases more with
      | nil =>
        obtain rfl := Option.some.inj hat
        exact .inl h
      | cons name more =>
        obtain ⟨child, hchild, hat⟩ := Option.bind_eq_some_iff.mp hat
        have hmem := (child?_folder_eq_some_iff distinct).mp hchild
        exact .inr ⟨_, hmem, (ih _ hmem _).mpr ⟨more, (List.forall_mem_cons.mp hmore).2, target, hat, h⟩⟩

end FileTree

namespace Files

/-- What a path leads through, the innermost first. -/
def trail? (files : Files) (path : List Char) : Option (List FileTree) :=
  follow? [files.root] (splitOn '/' (join files.workFolder path)).tail

theorem get?_eq (files : Files) {path : List Char} (hpath : path ≠ []) :
    files.get? path = (files.trail? path).bind List.head? := by
  simp [get?, trail?, hpath]

theorem follow?_append (trail : List FileTree) (pieces more : List (List Char)) :
    follow? trail (pieces ++ more) = (follow? trail pieces).bind fun trail => follow? trail more := by
  induction pieces generalizing trail with
  | nil => rfl
  | cons piece pieces ih =>
    rw [List.cons_append, follow?, follow?, Option.bind_assoc]
    exact congrArg _ (funext fun trail => ih trail)

theorem follow?_singleton (trail : List FileTree) (piece : List Char) :
    follow? trail [piece] = step? piece trail := by
  simp [follow?]

/-- An empty piece leads nowhere else, and only a step out of a folder can follow it. -/
theorem step?_nil_bind (piece : List Char) (trail : List FileTree) :
    (step? [] trail).bind (step? piece) = step? piece trail := by
  rcases trail with _ | ⟨tree, outer⟩
  · rfl
  · cases tree <;> rfl

theorem trail?_join (files : Files) {path piece : List Char} (hpath : path ≠ []) (hpiece : '/' ∉ piece) :
    files.trail? (join path piece) = (files.trail? path).bind (step? piece) := by
  have hfull : join files.workFolder path ≠ [] := by
    unfold join
    split_ifs <;> simp [hpath]
  unfold trail?
  rw [join_join _ hpath (isAbsolute_eq_false_of_not_mem hpiece)]
  obtain ⟨front, hfront, hlong, hshort⟩ := splitOn_join hfull hpiece
  rw [hlong, List.tail_append_of_ne_nil hfront, follow?_append]
  simp only [follow?_singleton]
  rcases hshort with hshort | hshort
  · rw [hshort]
  · rw [hshort, List.tail_append_of_ne_nil hfront, follow?_append, Option.bind_assoc]
    simp only [follow?_singleton, step?_nil_bind]

theorem head?_step? {name : List Char} (hname : IsName name) (trail : List FileTree) :
    (step? name trail).bind List.head? = trail.head?.bind fun tree => tree.child? name := by
  rcases trail with _ | ⟨tree, outer⟩
  · rfl
  · cases tree with
    | file content => rfl
    | folder entries =>
      have hidle : isIdle name = false := by simp [isIdle, hname.1, hname.2.1]
      have hparent : (name == ['.', '.']) = false := by simp [hname.2.2.1]
      simp only [step?, hidle, hparent, List.head?_cons, Option.bind_some]
      cases (FileTree.folder entries).child? name <;> rfl

/-- What stands at a name below a path is the entry of that name. -/
theorem get?_join (files : Files) {path name : List Char} (hpath : path ≠ []) (hname : IsName name) :
    files.get? (join path name) = (files.get? path).bind fun tree => tree.child? name := by
  have hpiece := isAbsolute_eq_false_of_not_mem hname.2.2.2
  rw [files.get?_eq hpath, files.get?_eq (join_ne_nil hpath hpiece), files.trail?_join hpath hname.2.2.2,
    Option.bind_assoc, Option.bind_assoc]
  exact congrArg _ (funext fun trail => head?_step? hname trail)

theorem get?_under (files : Files) {path : List Char} {names : List (List Char)} (hpath : path ≠ [])
    (hnames : ∀ n ∈ names, IsName n) :
    files.get? (under path names) = (files.get? path).bind fun tree => tree.at? names := by
  induction names generalizing path with
  | nil => exact (Option.bind_fun_some _).symm
  | cons name names ih =>
    obtain ⟨hname, hnames⟩ := List.forall_mem_cons.mp hnames
    have hne := join_ne_nil hpath (isAbsolute_eq_false_of_not_mem hname.2.2.2)
    rw [under_cons, ih hne hnames, files.get?_join hpath hname, Option.bind_assoc]
    rfl

theorem ne_nil_of_get? {files : Files} {path : List Char} {tree : FileTree} (h : files.get? path = some tree) :
    path ≠ [] := by
  rintro rfl
  cases h

theorem isThere_of_isFolder {files : Files} {path : List Char} (h : files.isFolder path) : files.isThere path := by
  obtain ⟨tree, htree, -⟩ := (Option.any_eq_true _ _).mp h
  rw [isThere, htree]
  rfl

theorem exists_trail_of_get? {files : Files} {path : List Char} {tree : FileTree} (h : files.get? path = some tree) :
    ∃ outer, files.trail? path = some (tree :: outer) := by
  rw [files.get?_eq (ne_nil_of_get? h)] at h
  obtain ⟨trail, htrail, hhead⟩ := Option.bind_eq_some_iff.mp h
  obtain ⟨outer, rfl⟩ := List.head?_eq_some_iff.mp hhead
  exact ⟨outer, htrail⟩

/-- What a longer path leads to is there only if the path leads somewhere. -/
theorem isThere_of_isThere_join {files : Files} {path piece : List Char} (hpath : path ≠ []) (hpiece : '/' ∉ piece)
    (h : files.isThere (join path piece)) : files.isThere path := by
  obtain ⟨tree, htree⟩ := Option.isSome_iff_exists.mp h
  obtain ⟨outer, htrail⟩ := exists_trail_of_get? htree
  rw [files.trail?_join hpath hpiece] at htrail
  obtain ⟨trail, htrail, hstep⟩ := Option.bind_eq_some_iff.mp htrail
  rw [isThere, files.get?_eq hpath, htrail]
  cases trail with
  | nil => cases hstep
  | cons tree outer => rfl

theorem isThere_of_isThere_under {files : Files} {path : List Char} {pieces : List (List Char)} (hpath : path ≠ [])
    (hpieces : ∀ piece ∈ pieces, '/' ∉ piece) (h : files.isThere (under path pieces)) : files.isThere path := by
  induction pieces generalizing path with
  | nil => exact h
  | cons piece pieces ih =>
    obtain ⟨hpiece, hpieces⟩ := List.forall_mem_cons.mp hpieces
    have hne := join_ne_nil hpath (isAbsolute_eq_false_of_not_mem hpiece)
    exact isThere_of_isThere_join hpath hpiece (ih hne hpieces h)

/-- `.` and `..` are there in every folder. -/
theorem isThere_join_dots {files : Files} {path piece : List Char} {tree : FileTree}
    (hget : files.get? path = some tree) (hpiece : piece = ['.'] ∨ piece = ['.', '.']) :
    files.isThere (join path piece) = tree.isFolder := by
  have hpath := ne_nil_of_get? hget
  have hslash : '/' ∉ piece := by rcases hpiece with rfl | rfl <;> decide
  obtain ⟨outer, htrail⟩ := exists_trail_of_get? hget
  rw [isThere, files.get?_eq (join_ne_nil hpath (isAbsolute_eq_false_of_not_mem hslash)),
    files.trail?_join hpath hslash, htrail]
  cases tree with
  | file content => rfl
  | folder entries =>
    rcases hpiece with rfl | rfl
    · rfl
    · cases outer <;> rfl

theorem isThere_join_iff {files : Files} {path name : List Char} {tree : FileTree} (hname : IsName name)
    (hget : files.get? path = some tree) : files.isThere (join path name) ↔ (tree.child? name).isSome := by
  rw [isThere, files.get?_join (ne_nil_of_get? hget) hname, hget]
  rfl

theorem wellFormed_step? {piece : List Char} {trail next : List FileTree} (htrail : ∀ t ∈ trail, t.WellFormed)
    (h : step? piece trail = some next) : ∀ t ∈ next, t.WellFormed := by
  rcases trail with _ | ⟨_ | entries, outer⟩
  · cases h
  · cases h
  · obtain ⟨hfolder, houter⟩ := List.forall_mem_cons.mp htrail
    simp only [step?] at h
    split_ifs at h with hidle hparent htop
    · obtain rfl := Option.some.inj h
      exact htrail
    · obtain rfl := Option.some.inj h
      exact htrail
    · obtain rfl := Option.some.inj h
      exact houter
    · obtain ⟨child, hchild, rfl⟩ := Option.map_eq_some_iff.mp h
      exact List.forall_mem_cons.mpr ⟨hfolder.child hchild, htrail⟩

theorem wellFormed_follow? {pieces : List (List Char)} {trail last : List FileTree}
    (htrail : ∀ t ∈ trail, t.WellFormed) (h : follow? trail pieces = some last) :
    ∀ t ∈ last, t.WellFormed := by
  induction pieces generalizing trail with
  | nil =>
    obtain rfl := Option.some.inj h
    exact htrail
  | cons piece pieces ih =>
    obtain ⟨next, hnext, h⟩ := Option.bind_eq_some_iff.mp h
    exact ih (wellFormed_step? htrail hnext) h

/-- What stands at a path of a well-formed tree is a well-formed tree. -/
theorem wellFormed_of_get? {files : Files} (hroot : files.root.WellFormed) {path : List Char} {tree : FileTree}
    (h : files.get? path = some tree) : tree.WellFormed := by
  rw [files.get?_eq (ne_nil_of_get? h)] at h
  obtain ⟨trail, htrail, hhead⟩ := Option.bind_eq_some_iff.mp h
  have hroots : ∀ t ∈ [files.root], t.WellFormed := by simpa using hroot
  exact wellFormed_follow? hroots htrail tree (List.mem_of_head? hhead)

end Files

end ComponentDoc
