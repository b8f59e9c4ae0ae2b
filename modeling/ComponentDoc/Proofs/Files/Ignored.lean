import ComponentDoc.Files.Scan
import ComponentDoc.Proofs.Path.Order
import ComponentDoc.Proofs.Sequence

namespace ComponentDoc

open Text

namespace Files

/-- A pattern among the texts describes the path. -/
def IsIgnored (ignores : List (List Char)) (path : List Char) : Prop :=
  ∃ text ∈ ignores, ∃ pattern, Glob.Pattern.parse text = .ok pattern ∧ pattern.fits path

/-- One of the includes of a base folder is a pattern that describes the path. -/
def IsDescribed (files : Files) (base : List Char) (includes : List (List Char)) (path : List Char) : Prop :=
  ∃ text ∈ includes, ∃ found, Glob.paths files (Path.join base text) = .ok found ∧ path ∈ found

theorem mem_resolveIncludes_iff {files : Files} {base : List Char} {includes : List (List Char)}
    (hw : ∀ text ∈ includes, Glob.hasWildcard text) {path : List Char} :
    path ∈ files.resolveIncludes base includes ↔ files.IsDescribed base includes path := by
  unfold resolveIncludes IsDescribed
  rw [List.mem_flatMap]
  refine exists_congr fun text => and_congr_right fun ht => ?_
  rw [if_pos (hw text ht)]
  cases hp : Glob.paths files (Path.join base text) with
  | error fault => simp
  | ok found => simp

theorem mem_validPatterns_iff {ignores : List (List Char)} {pattern : Glob.Pattern} :
    pattern ∈ validPatterns ignores ↔ ∃ text ∈ ignores, Glob.Pattern.parse text = .ok pattern := by
  unfold validPatterns
  rw [List.mem_filterMap]
  simp only [toOption_eq_some_iff]

theorem any_fits_iff {ignores : List (List Char)} {path : List Char} :
    ((validPatterns ignores).any (·.fits path)) ↔ IsIgnored ignores path := by
  rw [List.any_eq_true]
  simp only [mem_validPatterns_iff, IsIgnored]
  constructor
  · rintro ⟨pattern, ⟨text, ht, hp⟩, hfits⟩
    exact ⟨text, ht, pattern, hp, hfits⟩
  · rintro ⟨text, ht, pattern, hp, hfits⟩
    exact ⟨pattern, ⟨text, ht, hp⟩, hfits⟩

/-- What a root gives: the file that it is, or component files below it that are not ignored. -/
theorem mem_filesOfRoot_iff {files : Files} {ignores : List (List Char)} {root path : List Char} :
    path ∈ files.filesOfRoot (validPatterns ignores) root ↔
      (files.isFile root ∧ path = root) ∨
      ∃ entries, files.get? root = some (.folder entries) ∧
        path ∈ FileTree.filesOfEntries root entries ∧ isComponentFile path ∧ ¬ IsIgnored ignores path := by
  unfold filesOfRoot isFile
  cases hg : files.get? root with
  | none => simp
  | some tree =>
    cases tree with
    | file content => simp [FileTree.isFile]
    | folder entries => simp [FileTree.isFile, ← any_fits_iff]

theorem exists_root_of_mem_scan {files : Files} {roots ignores : List (List Char)} {path : List Char}
    (h : path ∈ (files.scan roots ignores).files) :
    ∃ root ∈ roots, path ∈ files.filesOfRoot (validPatterns ignores) root :=
  List.mem_flatMap.mp (Path.mem_of_mem_sortDistinct h)

theorem exists_mem_scan_of_isFile {files : Files} {roots : List (List Char)} {root : List Char}
    (hr : root ∈ roots) (hf : files.isFile root) (ignores : List (List Char)) :
    ∃ path ∈ (files.scan roots ignores).files, Path.parts path = Path.parts root := by
  apply Path.exists_mem_sortDistinct
  rw [List.mem_flatMap]
  exact ⟨root, hr, mem_filesOfRoot_iff.mpr (.inl ⟨hf, rfl⟩)⟩

/-- A file that a scan gives is ignored only if an include describes it itself, and every file that an include
describes is given, ignored or not. -/
theorem ignored_only_if_described (files : Files) (base : List Char) (includes ignores : List (List Char))
    (hw : ∀ text ∈ includes, Glob.hasWildcard text) :
    (∀ path ∈ (files.scan (files.resolveIncludes base includes) ignores).files, IsIgnored ignores path →
      files.isFile path ∧ files.IsDescribed base includes path) ∧
    ∀ path, files.isFile path → files.IsDescribed base includes path →
      ∃ given ∈ (files.scan (files.resolveIncludes base includes) ignores).files,
        Path.parts given = Path.parts path := by
  constructor
  · intro path hpath hignored
    obtain ⟨root, hr, hm⟩ := exists_root_of_mem_scan hpath
    rcases mem_filesOfRoot_iff.mp hm with ⟨hf, rfl⟩ | ⟨_, _, _, _, hnot⟩
    · exact ⟨hf, (mem_resolveIncludes_iff hw).mp hr⟩
    · exact absurd hignored hnot
  · intro path hf hd
    exact exists_mem_scan_of_isFile ((mem_resolveIncludes_iff hw).mpr hd) hf ignores

/-- A folder with one component file. -/
def oneComponent : Files where
  root := .folder [("app".toList, .folder [("a.svelte".toList, .file ByteArray.empty)])]
  workFolder := "/app".toList

theorem scan_oneComponent :
    (oneComponent.scan (oneComponent.resolveIncludes "/app".toList ["*.svelte".toList])
      ["**/a.svelte".toList]).files = ["/app/a.svelte".toList] := by
  cbv

theorem isIgnored_oneComponent : IsIgnored ["**/a.svelte".toList] "/app/a.svelte".toList :=
  ⟨_, List.mem_singleton_self _, _, rfl, by decide⟩

/-- The include describes the file, and so the file is given although it is ignored. -/
theorem ignored_only_if_described_oneComponent :
    (∀ text ∈ ["*.svelte".toList], Glob.hasWildcard text) ∧
    "/app/a.svelte".toList ∈ (oneComponent.scan
      (oneComponent.resolveIncludes "/app".toList ["*.svelte".toList]) ["**/a.svelte".toList]).files ∧
    IsIgnored ["**/a.svelte".toList] "/app/a.svelte".toList ∧
    oneComponent.IsDescribed "/app".toList ["*.svelte".toList] "/app/a.svelte".toList := by
  have hw : ∀ text ∈ ["*.svelte".toList], Glob.hasWildcard text := by decide
  have hgiven : "/app/a.svelte".toList ∈ (oneComponent.scan
      (oneComponent.resolveIncludes "/app".toList ["*.svelte".toList]) ["**/a.svelte".toList]).files := by
    rw [scan_oneComponent]
    exact List.mem_singleton_self _
  have hthm := ignored_only_if_described oneComponent "/app".toList _ ["**/a.svelte".toList] hw
  exact ⟨hw, hgiven, isIgnored_oneComponent, (hthm.1 _ hgiven isIgnored_oneComponent).2⟩

/-- Ignore patterns do not hold back a file that a wildcard finds. -/
theorem wildcard_gives_ignored_file :
    ¬ ∀ (files : Files) (base : List Char) (includes ignores : List (List Char)),
      (∀ text ∈ includes, Glob.hasWildcard text) →
      (∀ text ∈ ignores, ∃ pattern, Glob.Pattern.parse text = .ok pattern) →
      ∀ path ∈ (files.scan (files.resolveIncludes base includes) ignores).files,
        ¬ IsIgnored ignores path := by
  intro h
  have hall := h oneComponent "/app".toList ["*.svelte".toList] ["**/a.svelte".toList] (by decide) ?_
  · rw [scan_oneComponent] at hall
    exact hall _ (List.mem_singleton_self _) isIgnored_oneComponent
  · intro text ht
    obtain rfl := List.mem_singleton.mp ht
    exact ⟨_, rfl⟩

end Files

end ComponentDoc
