import ComponentDoc.Proofs.Files.Ignored
import ComponentDoc.Proofs.Files.Lookup

namespace ComponentDoc

open Text ComponentDoc.Path

/-- Something, a dot and the word `svelte`, each of its letters small or a capital. -/
def IsComponentName (name : List Char) : Prop :=
  ∃ stem extension, name = stem ++ '.' :: extension ∧ stem ≠ [] ∧
    List.Forall₂ (fun c letter => c = letter ∨ c = letter.toUpper) extension "svelte".toList

theorem toNat_asciiLower (c : Char) :
    (asciiLower c).toNat = if 65 ≤ c.toNat ∧ c.toNat ≤ 90 then c.toNat + 32 else c.toNat := by
  unfold asciiLower
  by_cases hc : 65 ≤ c.toNat ∧ c.toNat ≤ 90
  · have hvalid : (c.toNat + 32).isValidChar := .inl (by omega)
    simp [hc, Char.toNat_ofNat, hvalid]
  · rw [if_neg hc, if_neg]
    simpa using hc

theorem isLower_iff {c : Char} : c.isLower ↔ 97 ≤ c.toNat ∧ c.toNat ≤ 122 := by
  simp only [Char.isLower, Bool.and_eq_true, decide_eq_true_eq]
  rfl

theorem toNat_toUpper {letter : Char} (h : letter.isLower) : letter.toUpper.toNat + 32 = letter.toNat := by
  have hrange := isLower_iff.mp h
  have hupper : letter.toUpper.val = letter.val + ('A'.val - 'a'.val) := by
    rw [Char.toUpper]
    split_ifs with hsmall
    · rfl
    · exact absurd hrange hsmall
  have hback : ('A'.val - 'a'.val).toNat = 2 ^ 32 - 32 := rfl
  rw [← Char.toNat_val, hupper, UInt32.toNat_add, hback, Char.toNat_val]
  omega

/-- A small letter is the lower case form of itself and of its capital, and of no other character. -/
theorem asciiLower_eq_iff {c letter : Char} (h : letter.isLower) :
    asciiLower c = letter ↔ c = letter ∨ c = letter.toUpper := by
  have hrange := isLower_iff.mp h
  have hupper := toNat_toUpper h
  simp only [← Char.toNat_inj, toNat_asciiLower]
  split_ifs <;> omega

theorem map_asciiLower_eq_iff {extension letters : List Char} (h : ∀ letter ∈ letters, letter.isLower) :
    extension.map asciiLower = letters ↔
      List.Forall₂ (fun c letter => c = letter ∨ c = letter.toUpper) extension letters := by
  induction letters generalizing extension with
  | nil => simp
  | cons letter letters ih =>
    obtain ⟨hletter, hletters⟩ := List.forall_mem_cons.mp h
    cases extension with
    | nil => simp
    | cons c extension =>
      rw [List.map_cons, List.cons.injEq, List.forall₂_cons, asciiLower_eq_iff hletter, ih hletters]

/-- The extension comes after the last dot, unless nothing is before it. -/
theorem Path.splitExtension_append {stem extension : List Char} (hdot : '.' ∉ extension) :
    (splitExtension (stem ++ '.' :: extension)).2 = if stem = [] then none else some extension := by
  have hall : ∀ c ∈ extension.reverse, (c != '.') = true := by
    intro c hc
    have hne : c ≠ '.' := fun h => hdot (h ▸ List.mem_reverse.mp hc)
    simpa using hne
  have htake : ((stem ++ '.' :: extension).reverse.takeWhile (· != '.')).reverse = extension := by
    rw [List.reverse_append, List.reverse_cons, List.append_assoc, List.takeWhile_append_of_pos hall]
    simp
  have hlength : (stem ++ '.' :: extension).length - extension.length - 1 = stem.length := by
    simp only [List.length_append, List.length_cons]
    omega
  have hshort : Nat.blt extension.length (stem ++ '.' :: extension).length = true := by
    rw [Nat.blt_eq, List.length_append, List.length_cons]
    omega
  simp only [splitExtension, htake, hlength, List.take_left, hshort]
  cases stem <;> rfl

theorem Path.splitExtension_of_not_mem {name : List Char} (h : '.' ∉ name) :
    (splitExtension name).2 = none := by
  have hall : ∀ c ∈ name.reverse, (c != '.') = true := by
    intro c hc
    have hne : c ≠ '.' := fun hdot => h (hdot ▸ List.mem_reverse.mp hc)
    simpa using hne
  simp [splitExtension, List.takeWhile_eq_self_iff.mpr hall, Nat.blt]

theorem isComponentName_iff {name : List Char} : IsComponentName name ↔
    ∃ extension, (splitExtension name).2 = some extension ∧ extension.map asciiLower = componentExtension := by
  have hsmall : ∀ letter ∈ componentExtension, letter.isLower := by simp [componentExtension]
  change (∃ stem extension, _ ∧ _ ∧ List.Forall₂ _ extension componentExtension) ↔ _
  simp only [← map_asciiLower_eq_iff hsmall]
  constructor
  · rintro ⟨stem, extension, rfl, hstem, hlower⟩
    have hdot : '.' ∉ extension := by
      intro hmem
      have hlow : asciiLower '.' ∈ componentExtension := hlower ▸ List.mem_map_of_mem hmem
      revert hlow
      decide
    exact ⟨extension, by rw [Path.splitExtension_append hdot, if_neg hstem], hlower⟩
  · rintro ⟨extension, hsplit, hlower⟩
    by_cases hmem : '.' ∈ name
    · obtain ⟨back, front, hname, hdot⟩ := List.eq_append_cons_of_mem (List.mem_reverse.mpr hmem)
      have hname : name = front.reverse ++ '.' :: back.reverse := by
        rw [← List.reverse_reverse name, hname]
        simp
      rw [hname, Path.splitExtension_append (fun h => hdot (List.mem_reverse.mp h))] at hsplit
      split_ifs at hsplit with hstem
      obtain rfl := Option.some.inj hsplit
      exact ⟨front.reverse, back.reverse, hname, hstem, hlower⟩
    · rw [Path.splitExtension_of_not_mem hmem] at hsplit
      cases hsplit

theorem isComponentFile_iff {path : List Char} :
    isComponentFile path ↔ ∃ name, fileName? path = some name ∧ IsComponentName name := by
  simp only [isComponentFile, extension?, Option.any_eq_true, beq_iff_eq, Option.bind_eq_some_iff,
    isComponentName_iff]
  constructor
  · rintro ⟨extension, ⟨name, hname, hsplit⟩, hlower⟩
    exact ⟨name, hname, extension, hsplit, hlower⟩
  · rintro ⟨name, hname, extension, hsplit, hlower⟩
    exact ⟨extension, ⟨name, hname, hsplit⟩, hlower⟩

namespace FileTree

theorem mem_filesOfEntries_iff {path file : List Char} {entries : List (List Char × FileTree)} :
    file ∈ filesOfEntries path entries ↔ ∃ e ∈ entries, file ∈ e.2.filesBelow (join path e.1) := by
  induction entries with
  | nil => simp [filesOfEntries]
  | cons e entries ih => simp [filesOfEntries, ih]

theorem WellFormed.mem_filesBelow_iff {tree : FileTree} (htree : tree.WellFormed) {path file : List Char} :
    file ∈ tree.filesBelow path ↔ ∃ names, (∀ n ∈ names, IsName n) ∧
      ∃ target, tree.at? names = some target ∧ target.isFile ∧ file = under path names := by
  refine htree.found_iff (fun path tree => file ∈ tree.filesBelow path)
    (fun path tree => tree.isFile ∧ file = path) ?_ ?_ path
  · intro path content
    simp [filesBelow, isFile]
  · intro path entries
    simp [filesBelow, isFile, mem_filesOfEntries_iff]

end FileTree

namespace Files

/-- What a scan has to find. -/
inductive Finds (files : Files) (roots ignores : List (List Char)) (path : List Char) : Prop where
  /-- A root that is a file is found as it is given. -/
  | given (mem : path ∈ roots) (file : files.isFile path)
  /-- Below a root that is a folder, a component file is found unless an ignore pattern describes it. -/
  | below {root name : List Char} {names : List (List Char)} (mem : root ∈ roots)
      (folder : files.isFolder root) (ordinary : ∀ n ∈ names, IsName n) (last : names.getLast? = some name)
      (path_eq : path = under root names) (file : files.isFile path) (component : IsComponentName name)
      (kept : ¬ IsIgnored ignores path)

theorem mem_filesOfEntries_iff_isFile {files : Files} (hroot : files.root.WellFormed) {root path : List Char}
    {entries : List (List Char × FileTree)} (hget : files.get? root = some (.folder entries)) :
    path ∈ FileTree.filesOfEntries root entries ↔ ∃ names, names ≠ [] ∧ (∀ n ∈ names, IsName n) ∧
      path = under root names ∧ files.isFile path := by
  have hat {names : List (List Char)} (hnames : ∀ n ∈ names, IsName n) :
      files.get? (under root names) = (FileTree.folder entries).at? names := by
    rw [files.get?_under (ne_nil_of_get? hget) hnames, hget]
    rfl
  change path ∈ (FileTree.folder entries).filesBelow root ↔ _
  rw [(wellFormed_of_get? hroot hget).mem_filesBelow_iff]
  constructor
  · rintro ⟨names, hnames, target, htarget, hfile, rfl⟩
    refine ⟨names, ?_, hnames, rfl, ?_⟩
    · rintro rfl
      obtain rfl := Option.some.inj htarget
      cases hfile
    · simp [isFile, hat hnames, htarget, hfile]
  · rintro ⟨names, -, hnames, rfl, hfile⟩
    rw [isFile, hat hnames] at hfile
    obtain ⟨target, htarget, hfile⟩ := (Option.any_eq_true _ _).mp hfile
    exact ⟨names, hnames, target, htarget, hfile, rfl⟩

theorem finds_iff {files : Files} (hroot : files.root.WellFormed) {roots ignores : List (List Char)}
    {path : List Char} : files.Finds roots ignores path ↔
      ∃ root ∈ roots, path ∈ files.filesOfRoot (validPatterns ignores) root := by
  simp only [mem_filesOfRoot_iff]
  constructor
  · rintro (⟨hmem, hfile⟩ | ⟨hmem, hfolder, hnames, hlast, rfl, hfile, hcomponent, hkept⟩)
    · exact ⟨path, hmem, .inl ⟨hfile, rfl⟩⟩
    · obtain ⟨tree, hget, htree⟩ := (Option.any_eq_true _ _).mp hfolder
      cases tree with
      | file content => cases htree
      | folder entries =>
        have hname := fileName?_under (ne_nil_of_get? hget) hnames hlast
        have hne : _ ≠ [] := List.ne_nil_of_mem (List.mem_of_getLast? hlast)
        refine ⟨_, hmem, .inr ⟨entries, hget, ?_, isComponentFile_iff.mpr ⟨_, hname, hcomponent⟩, hkept⟩⟩
        exact (mem_filesOfEntries_iff_isFile hroot hget).mpr ⟨_, hne, hnames, rfl, hfile⟩
  · rintro ⟨root, hmem, ⟨hfile, rfl⟩ | ⟨entries, hget, hbelow, hcomponent, hkept⟩⟩
    · exact .given hmem hfile
    · obtain ⟨names, hne, hnames, rfl, hfile⟩ := (mem_filesOfEntries_iff_isFile hroot hget).mp hbelow
      have hlast := List.getLast?_eq_some_getLast hne
      have hname := fileName?_under (ne_nil_of_get? hget) hnames hlast
      obtain ⟨name, hname', hcomponent⟩ := isComponentFile_iff.mp hcomponent
      obtain rfl := Option.some.inj (hname'.symm.trans hname)
      refine .below hmem ?_ hnames hlast rfl hfile hcomponent hkept
      simp [isFolder, hget, FileTree.isFolder]

/-- Roots that are there already and exist change nothing when they are given again, wherever they stand. -/
theorem scan_perm (files : Files) {roots again others : List (List Char)} (ignores : List (List Char))
    (hagain : ∀ root ∈ again, root ∈ roots ∧ files.isThere root) (hperm : others.Perm (roots ++ again)) :
    (files.scan others ignores).files.map parts = (files.scan roots ignores).files.map parts ∧
      (files.scan others ignores).skipped = (files.scan roots ignores).skipped := by
  have hmem {root : List Char} : root ∈ others ↔ root ∈ roots := by
    rw [hperm.mem_iff, List.mem_append]
    exact or_iff_left_of_imp fun h => (hagain root h).1
  constructor
  · apply map_parts_sortDistinct_eq
    intro ps
    simp only [List.mem_map, List.mem_flatMap, hmem]
  · have hthere : again.countP (fun root => !files.isThere root) = 0 := by
      rw [List.countP_eq_zero]
      intro root hr
      simp [(hagain root hr).2]
    change others.countP _ = roots.countP _
    rw [hperm.countP_eq, List.countP_append, hthere, Nat.add_zero]

/-- A scan lists, in the strict order of paths, what it has to find, each path in one of the ways in which it is found;
it counts the roots that lead nowhere; and neither the order of the roots nor giving one again that leads
somewhere changes which paths are listed or how many roots are counted. -/
theorem scan_lists_what_it_finds (files : Files) (hroot : files.root.WellFormed)
    (roots ignores : List (List Char)) :
    (files.scan roots ignores).files.Pairwise Before ∧
    (∀ path ∈ (files.scan roots ignores).files, files.Finds roots ignores path) ∧
    (∀ path, files.Finds roots ignores path →
      ∃ listed ∈ (files.scan roots ignores).files, parts listed = parts path) ∧
    (files.scan roots ignores).skipped = (roots.filter fun root => !files.isThere root).length ∧
    ∀ again others : List (List Char), (∀ root ∈ again, root ∈ roots ∧ files.isThere root) →
      others.Perm (roots ++ again) →
      (files.scan others ignores).files.map parts = (files.scan roots ignores).files.map parts ∧
      (files.scan others ignores).skipped = (files.scan roots ignores).skipped := by
  refine ⟨pairwise_sortDistinct _, ?_, ?_, List.countP_eq_length_filter, ?_⟩
  · intro path hpath
    exact (finds_iff hroot).mpr (exists_root_of_mem_scan hpath)
  · intro path hfinds
    exact exists_mem_sortDistinct (List.mem_flatMap.mpr ((finds_iff hroot).mp hfinds))
  · intro again others hagain hperm
    exact files.scan_perm ignores hagain hperm

theorem wellFormed_oneComponent : oneComponent.root.WellFormed :=
  .folder (by decide) (by decide) (List.forall_mem_singleton.mpr
    (.folder (by decide) (by decide) (List.forall_mem_singleton.mpr .file)))

/-- A folder with two components, of which one has its extension in capitals, and a file that is none. -/
def twoComponents : Files where
  root := .folder [("app".toList, .folder [("B.SVELTE".toList, .file ByteArray.empty),
    ("a.svelte".toList, .file ByteArray.empty), ("c.html".toList, .file ByteArray.empty)])]
  workFolder := "/app".toList

theorem wellFormed_twoComponents : twoComponents.root.WellFormed := by
  refine .folder (by decide) (by decide) (List.forall_mem_singleton.mpr (.folder (by decide) (by decide) ?_))
  simp [FileTree.WellFormed.file]

/-- The file with the capitals is found below the work folder and below the folder around it, and is listed once,
whichever of the two folders comes first. -/
theorem scan_lists_what_it_finds_twoComponents : twoComponents.root.WellFormed ∧
    twoComponents.Finds ["/app".toList, "/".toList] [] "/app/B.SVELTE".toList ∧
    (∃ listed ∈ (twoComponents.scan ["/app".toList, "/".toList] []).files,
      parts listed = parts "/app/B.SVELTE".toList) ∧
    (twoComponents.scan ["/app".toList, "/".toList] []).files = ["/app/B.SVELTE".toList, "/app/a.svelte".toList] ∧
    (twoComponents.scan ["/".toList, "/app".toList] []).files.map parts =
      (twoComponents.scan ["/app".toList, "/".toList] []).files.map parts := by
  have hfinds : twoComponents.Finds ["/app".toList, "/".toList] [] "/app/B.SVELTE".toList := by
    have hnames : ∀ n ∈ ["B.SVELTE".toList], IsName n := by decide
    refine .below List.mem_cons_self (by decide) hnames rfl (by decide) (by decide)
      ⟨"B".toList, "SVELTE".toList, by decide, by decide, ?_⟩ ?_
    · simp
    · rintro ⟨text, htext, -⟩
      cases htext
  obtain ⟨-, -, hlists, -, hperm⟩ :=
    scan_lists_what_it_finds twoComponents wellFormed_twoComponents ["/app".toList, "/".toList] []
  refine ⟨wellFormed_twoComponents, hfinds, hlists _ hfinds, by cbv, (hperm [] _ (by simp) ?_).1⟩
  exact List.Perm.swap _ _ _

end Files

end ComponentDoc
