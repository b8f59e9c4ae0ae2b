import ComponentDoc.Config.Load
import ComponentDoc.Proofs.Files.Scanned
import ComponentDoc.Proofs.Glob.Described
import ComponentDoc.Proofs.Glob.Reading

namespace ComponentDoc

open Text ComponentDoc.Path

/-- The absolute path of a folder without needless slashes. -/
def Path.tidied (folder : List Char) : List Char :=
  under ['/'] (Glob.components folder)

theorem Path.parts_under {folder : List Char} {pieces : List (List Char)} (hfolder : folder ≠ [])
    (hpieces : ∀ piece ∈ pieces, '/' ∉ piece) :
    parts (under folder pieces) = parts folder ++ pieces.filterMap part? := by
  induction pieces generalizing folder with
  | nil => simp
  | cons piece pieces ih =>
    obtain ⟨hpiece, hpieces⟩ := List.forall_mem_cons.mp hpieces
    have hne := join_ne_nil hfolder (isAbsolute_eq_false_of_not_mem hpiece)
    rw [under_cons, ih hne hpieces, parts_join hfolder hpiece, List.append_assoc]
    cases hpart : part? piece <;> simp [hpart]

/-- It is the same path as the folder. -/
theorem Path.parts_tidied {folder : List Char} (hfolder : isAbsolute folder) :
    parts (tidied folder) = parts folder := by
  obtain ⟨rest, rfl⟩ := exists_of_isAbsolute hfolder
  have hdrop : (Glob.pieces rest).filterMap part? = (splitOn '/' rest).filterMap part? := by
    unfold Glob.pieces
    split_ifs with hlast
    · obtain ⟨front, hfront⟩ := List.getLast?_eq_some_iff.mp (beq_iff_eq.mp hlast)
      rw [hfront, List.dropLast_concat, List.filterMap_append]
      exact (List.append_nil _).symm
    · rfl
  rw [tidied, Glob.components_cons, parts_under (by simp) fun piece => Glob.no_slash_of_mem_pieces, hdrop,
    parts_cons_slash rest]
  rfl

namespace Files

/-- The pieces of a text are patterns, and these describe the way from a folder to what is there: to a folder, if
the text ends with a slash or with two stars. -/
def Matches (files : Files) (text folder found : List Char) : Prop :=
  ∃ patterns pieces, Glob.ReadAs (Glob.pieces text) patterns ∧ Glob.Describes patterns pieces ∧
    found = under folder pieces ∧ files.isThere found ∧
    (text.getLast? = some '/' ∨ patterns.getLast? = some [.anyPath] → files.isFolder found)

theorem paths_eq_ok_iff {files : Files} {text : List Char} {found : List (List Char)} :
    Glob.paths files text = .ok found ↔ Glob.IsPattern text ∧ ∃ patterns,
      Glob.ReadAs (Glob.components text) patterns ∧
      found = Glob.expand files (text.getLast? == some '/') (Glob.collapse patterns) ['/'] := by
  unfold Glob.paths
  simp only [bind_eq_ok_iff, mapM_eq_ok_iff]
  constructor
  · rintro ⟨pattern, hparse, patterns, hpatterns, hfound⟩
    exact ⟨⟨pattern, hparse⟩, patterns, hpatterns, (Except.ok.inj hfound).symm⟩
  · rintro ⟨⟨pattern, hparse⟩, patterns, hpatterns, rfl⟩
    exact ⟨pattern, hparse, patterns, hpatterns, rfl⟩

/-- The paths that an absolute text stands for are those that it describes from the root on. -/
theorem exists_mem_paths_iff {files : Files} (hroot : files.root.WellFormed) {text found : List Char}
    (htext : text ≠ []) : (∃ paths, Glob.paths files ('/' :: text) = .ok paths ∧ found ∈ paths) ↔
      Glob.IsPattern ('/' :: text) ∧ files.Matches text ['/'] found := by
  simp only [paths_eq_ok_iff, Glob.components_cons, List.getLast?_cons_of_ne_nil htext]
  have hexpand {patterns : List Glob.Pattern} (hread : Glob.ReadAs (Glob.pieces text) patterns) :
      found ∈ Glob.expand files (text.getLast? == some '/') (Glob.collapse patterns) ['/'] ↔ _ :=
    Glob.mem_expand_collapse_iff hroot (hread.ne_nil (Glob.pieces_ne_nil htext))
      (hread.no_slash fun piece => Glob.no_slash_of_mem_pieces) (by simp)
  simp only [Glob.Reaches, beq_iff_eq] at hexpand
  constructor
  · rintro ⟨_, ⟨hpattern, patterns, hread, rfl⟩, hfound⟩
    obtain ⟨pieces, hmatches⟩ := (hexpand hread).mp hfound
    exact ⟨hpattern, patterns, pieces, hread, hmatches⟩
  · rintro ⟨hpattern, patterns, pieces, hread, hmatches⟩
    exact ⟨_, ⟨hpattern, patterns, hread, rfl⟩, (hexpand hread).mpr ⟨pieces, hmatches⟩⟩

theorem mem_resolveIncludes_singleton_iff {files : Files} {base text found : List Char}
    (hwildcard : Glob.hasWildcard text) : found ∈ files.resolveIncludes base [text] ↔
      ∃ paths, Glob.paths files (join base text) = .ok paths ∧ found ∈ paths := by
  rw [mem_resolveIncludes_iff (List.forall_mem_singleton.mpr hwildcard)]
  simp [IsDescribed]

section

variable {files : Files} {base text : List Char} (hbase : isAbsolute base) (hrelative : isAbsolute text = false)
include hbase hrelative

theorem isPattern_join (hplain : Glob.IsPlain base) (hpattern : Glob.IsPattern text) :
    Glob.IsPattern (join base text) := by
  obtain ⟨front, hfront, -, hjoin⟩ := Glob.exists_front hbase
  rw [hjoin text hrelative, Glob.isPattern_plain_append (hfront hplain)]
  exact hpattern

/-- In a plain folder, an include that is a pattern is dropped just when one of its pieces is none. -/
theorem exists_paths_eq_ok_iff (hplain : Glob.IsPlain base) (hpattern : Glob.IsPattern text) :
    (∃ paths, Glob.paths files (join base text) = .ok paths) ↔ ∀ piece ∈ Glob.pieces text, Glob.IsPattern piece := by
  simp only [paths_eq_ok_iff, isPattern_join hbase hrelative hplain hpattern, true_and,
    Glob.components_join hbase hrelative,
    Glob.readAs_plain_append_iff fun _ => hplain.of_mem_components, ← Glob.exists_readAs_iff]
  constructor
  · rintro ⟨_, _, ⟨more, rfl, hmore⟩, rfl⟩
    exact ⟨more, hmore⟩
  · rintro ⟨more, hmore⟩
    exact ⟨_, _, ⟨more, rfl, hmore⟩, rfl⟩

variable (hne : text ≠ [])
include hne

theorem exists_join_eq_cons : ∃ rest, rest ≠ [] ∧ rest.getLast? = text.getLast? ∧ join base text = '/' :: rest := by
  obtain ⟨front, -, -, hjoin⟩ := Glob.exists_front hbase
  obtain ⟨rest, hrest⟩ := exists_of_isAbsolute (isAbsolute_join_of_isAbsolute hbase text)
  have hsame := hrest.symm.trans (hjoin text hrelative)
  have hmore : rest ≠ [] := by
    rintro rfl
    have hlength := congrArg List.length hsame
    have hpos := List.length_pos_of_ne_nil hne
    simp only [List.length_append, List.length_cons, List.length_nil] at hlength
    omega
  refine ⟨rest, hmore, ?_, hrest⟩
  calc rest.getLast? = (front ++ '/' :: text).getLast? := by
        rw [← hsame, List.getLast?_cons_of_ne_nil hmore]
    _ = text.getLast? := by
        rw [List.getLast?_append, List.getLast?_cons_of_ne_nil hne, Option.or_of_isSome (by simpa using hne)]

/-- What the text of a plain folder and an include describes from the root on is what the include describes from the
folder on. -/
theorem matches_join_iff (hplain : Glob.IsPlain base) {found : List Char} :
    files.Matches (join base text).tail ['/'] found ↔ files.Matches text (tidied base) found := by
  obtain ⟨rest, -, hlast, hrest⟩ := exists_join_eq_cons hbase hrelative hne
  have hpieces : Glob.pieces rest = Glob.components base ++ Glob.pieces text := by
    rw [← Glob.components_cons, ← hrest, Glob.components_join hbase hrelative]
  have hplain : ∀ piece ∈ Glob.components base, Glob.IsPlain piece := fun _ => hplain.of_mem_components
  have hend {more : List Glob.Pattern} (hmore : Glob.ReadAs (Glob.pieces text) more) (front : List Glob.Pattern) :
      (front ++ more).getLast? = more.getLast? := by
    rw [List.getLast?_append, Option.or_of_isSome (by simpa using hmore.ne_nil (Glob.pieces_ne_nil hne))]
  rw [hrest, List.tail_cons]
  unfold Matches
  rw [hpieces, hlast]
  constructor
  · rintro ⟨_, _, hread, hdescribes, rfl, hfound⟩
    obtain ⟨patterns, rfl, hmore⟩ := (Glob.readAs_plain_append_iff hplain).mp hread
    obtain ⟨pieces, rfl, hbelow⟩ := Glob.describes_literals_append_iff.mp hdescribes
    rw [hend hmore] at hfound
    exact ⟨patterns, pieces, hmore, hbelow, under_append _ _ _, hfound⟩
  · rintro ⟨patterns, pieces, hread, hdescribes, rfl, hfound⟩
    refine ⟨_, _, (Glob.readAs_plain_append_iff hplain).mpr ⟨patterns, rfl, hread⟩,
      Glob.describes_literals_append_iff.mpr ⟨pieces, rfl, hdescribes⟩, (under_append _ _ _).symm, ?_⟩
    rw [hend hread]
    exact hfound

end

/-- What the includes of an absolute folder give has absolute paths. -/
theorem isAbsolute_of_mem_resolveIncludes {files : Files} (hroot : files.root.WellFormed) {base : List Char}
    (hbase : isAbsolute base) {includes : List (List Char)} {found : List Char}
    (h : found ∈ files.resolveIncludes base includes) : isAbsolute found := by
  obtain ⟨text, htext, h⟩ := List.mem_flatMap.mp h
  have hjoin := isAbsolute_join_of_isAbsolute hbase text
  by_cases hwildcard : Glob.hasWildcard text
  · obtain ⟨rest, hrest⟩ := exists_of_isAbsolute hjoin
    have hmore : rest ≠ [] := by
      rintro rfl
      rcases List.suffix_cons_iff.mp (hrest ▸ suffix_join base text) with rfl | hnil
      · cases hwildcard
      · rw [List.suffix_nil.mp hnil] at hwildcard
        cases hwildcard
    have hfound : found ∈ files.resolveIncludes base [text] := by
      simpa [resolveIncludes] using h
    rw [mem_resolveIncludes_singleton_iff hwildcard, hrest, exists_mem_paths_iff hroot hmore] at hfound
    obtain ⟨-, patterns, pieces, hread, hdescribes, rfl, -⟩ := hfound
    have hslash := hdescribes.no_slash (hread.no_slash fun _ => Glob.no_slash_of_mem_pieces)
    exact isAbsolute_under (by simp) hslash
  · simp only [if_neg hwildcard, List.mem_ite_nil_right, List.mem_singleton] at h
    exact h.2 ▸ hjoin

end Files

namespace Config

theorem checkPatterns_eq_ok_iff {refuse : String → Glob.Fault → ConfigError} {texts : List String} :
    checkPatterns refuse texts = .ok () ↔ ∀ text ∈ texts, Glob.IsPattern text.toList := by
  induction texts with
  | nil => simp [checkPatterns]
  | cons text texts ih =>
    rw [checkPatterns, List.forall_mem_cons]
    cases hparse : Glob.Pattern.parse text.toList with
    | error fault => simp [Glob.IsPattern, hparse]
    | ok pattern => simp [Glob.IsPattern, hparse, ih]

/-- A configuration can be used only if its includes with wildcards are patterns. -/
theorem isPattern_of_validate {config : Config} (h : config.validate = .ok ()) {text : String}
    (htext : text ∈ config.includes) (hwildcard : Glob.hasWildcard text.toList) : Glob.IsPattern text.toList := by
  obtain ⟨_, -, h⟩ := bind_eq_ok_iff.mp h
  obtain ⟨_, -, h⟩ := bind_eq_ok_iff.mp h
  exact checkPatterns_eq_ok_iff.mp h text (List.mem_filter.mpr ⟨htext, hwildcard⟩)

/-- A configuration with one include. -/
def including (text : String) : Config :=
  { includes := [text] }

end Config

namespace Files

/-- The includes of a configuration that can be used give their paths one after the other. A relative include with a
wildcard gives what its text after that of the base folder describes from the root on. If no character of the base
folder has a meaning in patterns, that is what the include describes from the base folder on, and the include is
dropped only for a piece that is no pattern. -/
theorem include_stands_for_matches (files : Files) (hroot : files.root.WellFormed) (config : Config)
    (hvalid : config.validate = .ok ()) (base : List Char) (hbase : isAbsolute base) :
    files.resolveIncludes base (config.includes.map String.toList) =
      config.includes.flatMap (fun text => files.resolveIncludes base [text.toList]) ∧
    ∀ text ∈ config.includes, Glob.hasWildcard text.toList → isAbsolute text.toList = false →
      (∀ found, found ∈ files.resolveIncludes base [text.toList] ↔
        Glob.IsPattern (join base text.toList) ∧ files.Matches (join base text.toList).tail ['/'] found) ∧
      (Glob.IsPlain base →
        (∀ found, found ∈ files.resolveIncludes base [text.toList] ↔
          files.Matches text.toList (tidied base) found) ∧
        parts (tidied base) = parts base ∧
        ((∃ paths, Glob.paths files (join base text.toList) = .ok paths) ↔
          ∀ piece ∈ Glob.pieces text.toList, Glob.IsPattern piece)) := by
  refine ⟨by simp [resolveIncludes, List.flatMap_map], fun text htext hwildcard hrelative => ?_⟩
  have hne : text.toList ≠ [] := by
    intro h
    rw [h] at hwildcard
    cases hwildcard
  have hpattern := Config.isPattern_of_validate hvalid htext hwildcard
  obtain ⟨rest, hmore, -, hrest⟩ := exists_join_eq_cons hbase hrelative hne
  have hgeneral (found : List Char) : found ∈ files.resolveIncludes base [text.toList] ↔
      Glob.IsPattern (join base text.toList) ∧ files.Matches (join base text.toList).tail ['/'] found := by
    rw [mem_resolveIncludes_singleton_iff hwildcard, hrest, List.tail_cons]
    exact exists_mem_paths_iff hroot hmore
  refine ⟨hgeneral, fun hplain => ⟨fun found => ?_, parts_tidied hbase, ?_⟩⟩
  · rw [hgeneral, and_iff_right (isPattern_join hbase hrelative hplain hpattern),
      matches_join_iff hbase hrelative hne hplain]
  · exact exists_paths_eq_ok_iff hbase hrelative hplain hpattern

/-- The include `*.svelte` describes the file `a.svelte` of a folder. -/
theorem matches_components {files : Files} {folder : List Char}
    (hthere : files.isThere (join folder "a.svelte".toList)) :
    files.Matches "*.svelte".toList folder (join folder "a.svelte".toList) := by
  refine ⟨[.anySequence :: ".svelte".toList.map .char], ["a.svelte".toList], ?_, ?_, rfl, hthere, ?_⟩
  · exact .cons (by cbv) .nil
  · exact .piece rfl ⟨by decide, .inl (by decide)⟩ .nothing
  · exact fun hfolder => absurd hfolder (by decide)

/-- From the folder with the one component, the include `*.svelte` describes it, and so gives it. -/
theorem include_stands_for_matches_oneComponent :
    oneComponent.root.WellFormed ∧ (Config.including "*.svelte").validate = .ok () ∧ isAbsolute "/app".toList ∧
    Glob.IsPlain "/app".toList ∧
    "/app/a.svelte".toList ∈ oneComponent.resolveIncludes "/app".toList ["*.svelte".toList] := by
  have hvalid : (Config.including "*.svelte").validate = .ok () := by cbv
  have hplain : Glob.IsPlain "/app".toList := by decide
  obtain ⟨-, hthm⟩ := include_stands_for_matches oneComponent wellFormed_oneComponent _ hvalid "/app".toList rfl
  obtain ⟨-, hplainly⟩ := hthm "*.svelte" (List.mem_singleton_self _) (by decide) (by decide)
  exact ⟨wellFormed_oneComponent, hvalid, rfl, hplain, ((hplainly hplain).1 _).mpr (matches_components (by decide))⟩

/-- A component in a folder whose name has brackets. -/
def bracketedFolder : Files where
  root := .folder [("a[b]".toList, .folder [("a.svelte".toList, .file ByteArray.empty)])]
  workFolder := "/a[b]".toList

theorem wellFormed_bracketedFolder : bracketedFolder.root.WellFormed :=
  .folder (by decide) (by decide) (List.forall_mem_singleton.mpr
    (.folder (by decide) (by decide) (List.forall_mem_singleton.mpr .file)))

/-- The brackets of a folder's name are read as a choice of characters, so that an include misses what it describes
there; and an include with a slash in brackets can be used, and is dropped. -/
theorem include_misses_bracketed_folder :
    ¬ (∀ (files : Files) (config : Config) (base : List Char) (text : String), files.root.WellFormed →
      config.validate = .ok () → isAbsolute base → text ∈ config.includes → Glob.hasWildcard text.toList →
      isAbsolute text.toList = false →
      ∀ found, files.Matches text.toList (tidied base) found → found ∈ files.resolveIncludes base [text.toList]) ∧
    ¬ (∀ (files : Files) (config : Config) (base : List Char) (text : String), files.root.WellFormed →
      config.validate = .ok () → isAbsolute base → text ∈ config.includes → Glob.hasWildcard text.toList →
      isAbsolute text.toList = false → ∃ paths, Glob.paths files (join base text.toList) = .ok paths) := by
  constructor
  · intro h
    have hfound := h bracketedFolder (.including "*.svelte") "/a[b]".toList "*.svelte" wellFormed_bracketedFolder
      (by cbv) rfl (List.mem_singleton_self _) (by decide) (by decide) _ (matches_components (by decide))
    have hnone : bracketedFolder.resolveIncludes "/a[b]".toList ["*.svelte".toList] = [] := by cbv
    rw [hnone] at hfound
    cases hfound
  · intro h
    obtain ⟨paths, hpaths⟩ := h oneComponent (.including "[a/b]*") "/app".toList "[a/b]*" wellFormed_oneComponent
      (by cbv) rfl (List.mem_singleton_self _) (by decide) (by decide)
    have hfault : (Glob.paths oneComponent (join "/app".toList "[a/b]*".toList)).toOption = none := by cbv
    rw [hpaths] at hfault
    cases hfault

end Files

end ComponentDoc
