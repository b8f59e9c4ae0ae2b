import ComponentDoc.Cli.Run
import ComponentDoc.Proofs.Files.Included
import ComponentDoc.Proofs.Path.Relative

namespace ComponentDoc.Cli

open Text ComponentDoc.Path

theorem map_fst_setMember (key : String) (value : Json) (members : List (String × Json)) :
    (setMember key value members).map Prod.fst =
      if key ∈ members.map Prod.fst then members.map Prod.fst else members.map Prod.fst ++ [key] := by
  induction members with
  | nil => rfl
  | cons m members ih =>
    by_cases hkey : m.1 = key
    · simp [setMember, hkey]
    · have hmem : key ∈ (m :: members).map Prod.fst ↔ key ∈ members.map Prod.fst := by
        rw [List.map_cons, List.mem_cons, or_iff_right (Ne.symm hkey)]
      rw [setMember, if_neg (by simpa using hkey), List.map_cons, ih, if_congr hmem rfl rfl]
      split_ifs <;> rfl

theorem mem_map_fst_setMember {key other : String} {value : Json} {members : List (String × Json)} :
    other ∈ (setMember key value members).map Prod.fst ↔ other ∈ members.map Prod.fst ∨ other = key := by
  rw [map_fst_setMember]
  split_ifs with hmem
  · exact (or_iff_left_of_imp fun h => h ▸ hmem).symm
  · simp

theorem nodup_map_fst_setMember {members : List (String × Json)} (h : (members.map Prod.fst).Nodup) (key : String)
    (value : Json) : ((setMember key value members).map Prod.fst).Nodup := by
  rw [map_fst_setMember]
  split_ifs with hmem
  · exact h
  · rw [← List.concat_eq_append]
    exact h.concat hmem

def isDocumented (files : Files) (options : Options) (path : List Char) : Bool :=
  (documentFile files options path).isOk

/-- What a report says on the files that it was made of: it has one document for each label of a documented file, and a
message for each of the others. -/
structure Report.Covers (files : Files) (options : Options) (found : List (List Char)) (report : Report) : Prop where
  nodup : (report.documents.map Prod.fst).Nodup
  mem_iff (text : String) : text ∈ report.documents.map Prod.fst ↔
    text ∈ (found.filter (isDocumented files options)).map (label files)
  failures : report.failures.length = found.countP (!isDocumented files options ·)

section

variable {files : Files} {options : Options}

theorem Report.Covers.add {found : List (List Char)} {report : Report} (h : report.Covers files options found)
    (path : List Char) : (report.add files options path).Covers files options (found ++ [path]) := by
  unfold Report.add
  cases hdocument : documentFile files options path with
  | error error =>
    have hnot : isDocumented files options path = false := by simp [isDocumented, hdocument, Except.isOk, Except.toBool]
    refine ⟨h.nodup, fun text => ?_, ?_⟩
    · simpa [hnot] using h.mem_iff text
    · simp [hnot, h.failures]
  | ok document =>
    have hdone : isDocumented files options path = true := by simp [isDocumented, hdocument, Except.isOk, Except.toBool]
    refine ⟨nodup_map_fst_setMember h.nodup _ _, fun text => ?_, ?_⟩
    · rw [mem_map_fst_setMember, h.mem_iff, List.filter_append, List.map_append, List.mem_append]
      simp [hdone]
    · simp [hdone, h.failures]

theorem Report.covers_foldl (found : List (List Char)) :
    (found.foldl (Report.add files options) {}).Covers files options found := by
  induction found using List.reverseRecOn with
  | nil => exact ⟨List.nodup_nil, fun text => by simp, rfl⟩
  | append_singleton found path ih =>
    rw [List.foldl_append]
    exact ih.add path

/-- A report has as many documents and failures as there were files just when no two documented files share a label. -/
theorem Report.Covers.length_eq_iff {found : List (List Char)} {report : Report}
    (h : report.Covers files options found) :
    report.documents.length + report.failures.length ≤ found.length ∧
    (report.documents.length + report.failures.length = found.length ↔
      ((found.filter (isDocumented files options)).map (label files)).Nodup) := by
  set shown := (found.filter (isDocumented files options)).map (label files) with hshown
  have hperm : (report.documents.map Prod.fst).Perm shown.dedup :=
    (List.perm_ext_iff_of_nodup h.nodup shown.nodup_dedup).mpr fun text => by rw [h.mem_iff, List.mem_dedup]
  have hdocuments : report.documents.length = shown.dedup.length := by
    rw [← hperm.length_eq, List.length_map]
  have hfound : found.length = shown.length + report.failures.length := by
    rw [h.failures, hshown, List.length_map, ← List.countP_eq_length_filter]
    simpa using List.length_eq_countP_add_countP (isDocumented files options)
  have hle : shown.dedup.length ≤ shown.length := shown.dedup_sublist.length_le
  refine ⟨by omega, ?_⟩
  rw [hdocuments, hfound, Nat.add_right_cancel_iff, ← List.dedup_eq_self]
  exact ⟨shown.dedup_sublist.eq_of_length, congrArg List.length⟩

end

theorem label_eq_iff (files : Files) {path other : List Char} (hparts : parts path ≠ parts other) :
    label files path = label files other ↔
      relativeTo? path files.workFolder = some other ∨ relativeTo? other files.workFolder = some path := by
  rw [label, label, String.ofList_inj]
  exact getD_relativeTo?_eq_iff files.workFolder hparts

/-- Two files share a label if one of them is a path that the work folder sees as the other. So the labels of distinct
files repeat just when two such files are among them. -/
theorem nodup_map_label_iff (files : Files) {paths : List (List Char)} (hpaths : (paths.map parts).Nodup) :
    (paths.map (label files)).Nodup ↔
      ∀ path ∈ paths, ∀ other ∈ paths, relativeTo? path files.workFolder ≠ some other := by
  rw [List.nodup_map_iff_inj_on hpaths.of_map]
  have hparts {path other : List Char} (hpath : path ∈ paths) (hother : other ∈ paths) (hne : path ≠ other) :
      parts path ≠ parts other := fun h => hne (List.inj_on_of_nodup_map hpaths hpath hother h)
  constructor
  · intro hinj path hpath other hother hseen
    have hne : path ≠ other := by
      rintro rfl
      obtain ⟨habsolute, hrelative, -⟩ := relativeTo?_spec hseen
      rw [habsolute] at hrelative
      cases hrelative
    exact hne (hinj path hpath other hother ((label_eq_iff files (hparts hpath hother hne)).mpr (.inl hseen)))
  · intro hnone path hpath other hother hlabel
    by_contra hne
    rcases (label_eq_iff files (hparts hpath hother hne)).mp hlabel with hseen | hseen
    · exact hnone path hpath other hother hseen
    · exact hnone other hother path hpath hseen

/-- What is found is absolute or relative as the root is below which it is found. -/
theorem exists_root_isAbsolute_eq {files : Files} (hroot : files.root.WellFormed) {roots ignores : List (List Char)}
    {path : List Char} (h : path ∈ (files.scan roots ignores).files) :
    ∃ root ∈ roots, isAbsolute path = isAbsolute root := by
  rcases (Files.finds_iff hroot).mpr (Files.exists_root_of_mem_scan h) with
    ⟨hmem, -⟩ | ⟨hmem, hfolder, hnames, -, rfl, -⟩
  · exact ⟨path, hmem, rfl⟩
  · obtain ⟨_, hget, -⟩ := (Option.any_eq_true _ _).mp hfolder
    exact ⟨_, hmem, isAbsolute_under (Files.ne_nil_of_get? hget) fun n hn => (hnames n hn).2.2.2⟩

theorem isAbsolute_of_findConfigIn {files : Files} {folders : List (List Char)} {path : List Char}
    (hfolders : ∀ folder ∈ folders, isAbsolute folder) (h : files.findConfigIn folders = some path) :
    isAbsolute path := by
  induction folders with
  | nil => cases h
  | cons folder folders ih =>
    obtain ⟨hfolder, hfolders⟩ := List.forall_mem_cons.mp hfolders
    rw [Files.findConfigIn] at h
    split_ifs at h
    · obtain rfl := Option.some.inj h
      exact isAbsolute_join_of_isAbsolute hfolder _
    · exact ih hfolders h

/-- The base folder of the configuration that holds in an absolute folder is absolute. -/
theorem isAbsolute_baseFolder {files : Files} {start : List Char} {loaded : Config.Loaded}
    (hstart : isAbsolute start) (h : files.loadConfig start = .ok loaded) : isAbsolute loaded.baseFolder := by
  unfold Files.loadConfig at h
  cases hconfig : files.findConfig? start with
  | none =>
    rw [hconfig] at h
    obtain rfl := Except.ok.inj h
    exact hstart
  | some path =>
    rw [hconfig] at h
    obtain ⟨config, -, h⟩ := bind_eq_ok_iff.mp h
    obtain rfl := Except.ok.inj h
    have hfolders : ∀ folder ∈ start :: above start, isAbsolute folder :=
      List.forall_mem_cons.mpr ⟨hstart, fun _ => isAbsolute_of_mem_above hstart⟩
    have hpath := isAbsolute_of_findConfigIn hfolders hconfig
    cases hparent : parent? path with
    | none => exact hstart
    | some parent => exact isAbsolute_of_mem_above hpath (List.mem_of_head? hparent)

section

variable {files : Files} {command : ParseCommand} {loaded : Config.Loaded}

theorem runParse_eq_outcome (hload : files.loadConfig files.workFolder = .ok loaded)
    (hfound : command.found files loaded ≠ []) : runParse files command =
      (command.report files loaded).outcome (command.found files loaded).length command.compact := by
  have hempty : ¬ (command.found files loaded).isEmpty := by simpa using hfound
  rw [runParse, hload]
  exact if_neg hempty

/-- All that a command finds is absolute or relative as all paths that it is given are; without paths it is absolute. -/
theorem isAbsolute_of_mem_found (hroot : files.root.WellFormed) (hwork : isAbsolute files.workFolder)
    (hload : files.loadConfig files.workFolder = .ok loaded)
    (hpaths : (∀ text ∈ command.paths, isAbsolute text.toList) ∨
      ∀ text ∈ command.paths, isAbsolute text.toList = false) :
    (∀ path ∈ command.found files loaded, isAbsolute path) ∨
      ∀ path ∈ command.found files loaded, isAbsolute path = false := by
  have hroots : (∀ root ∈ command.roots files loaded, isAbsolute root) ∨
      ∀ root ∈ command.roots files loaded, isAbsolute root = false := by
    unfold ParseCommand.roots
    split_ifs with hempty
    · exact .inl fun root => Files.isAbsolute_of_mem_resolveIncludes hroot (isAbsolute_baseFolder hwork hload)
    · simpa using hpaths
  refine hroots.imp (fun hroots path hpath => ?_) (fun hroots path hpath => ?_)
  all_goals
    obtain ⟨root, hmem, heq⟩ := exists_root_isAbsolute_eq hroot hpath
    exact heq.trans (hroots root hmem)

end

/-- A command keeps a document or a failure of each file that it finds unless it documents two files that share a
label. -/
theorem length_report_eq_iff (files : Files) (command : ParseCommand) (loaded : Config.Loaded) :
    (command.report files loaded).documents.length + (command.report files loaded).failures.length ≤
      (command.found files loaded).length ∧
    ((command.report files loaded).documents.length + (command.report files loaded).failures.length =
        (command.found files loaded).length ↔
      ∀ path ∈ command.found files loaded, ∀ other ∈ command.found files loaded,
        isDocumented files (command.apply loaded.config.options) path →
        isDocumented files (command.apply loaded.config.options) other →
        relativeTo? path files.workFolder ≠ some other) := by
  have hcovers : (command.report files loaded).Covers files (command.apply loaded.config.options)
      (command.found files loaded) := Report.covers_foldl _
  have hdistinct : (((command.found files loaded).filter
      (isDocumented files (command.apply loaded.config.options))).map parts).Nodup :=
    (nodup_map_parts_sortDistinct _).sublist (List.filter_sublist.map parts)
  obtain ⟨hle, heq⟩ := hcovers.length_eq_iff
  refine ⟨hle, heq.trans ((nodup_map_label_iff files hdistinct).trans ?_)⟩
  simp only [List.mem_filter, and_imp]
  exact ⟨fun h path hpath other hother hdone hdone' => h path hpath hdone other hother hdone',
    fun h path hpath hdone other hother hdone' => h path hpath other hother hdone hdone'⟩

/-- A run that loads its configuration and finds files reports on them, and keeps at most one document or failure of
each. It keeps one of each file unless it documents both a path inside the work folder and the relative path that this
is seen as: they share a label, and two others do not. If the paths that the command is given are all absolute
or all relative, it keeps one of each. -/
theorem documents_and_failures_add_up_iff (files : Files) (hroot : files.root.WellFormed)
    (hwork : isAbsolute files.workFolder) (command : ParseCommand) (loaded : Config.Loaded)
    (hload : files.loadConfig files.workFolder = .ok loaded) (hfound : command.found files loaded ≠ []) :
    runParse files command =
      (command.report files loaded).outcome (command.found files loaded).length command.compact ∧
    (∀ path ∈ command.found files loaded, ∀ other ∈ command.found files loaded, path ≠ other →
      (label files path = label files other ↔
        relativeTo? path files.workFolder = some other ∨ relativeTo? other files.workFolder = some path)) ∧
    (command.report files loaded).documents.length + (command.report files loaded).failures.length ≤
      (command.found files loaded).length ∧
    ((command.report files loaded).documents.length + (command.report files loaded).failures.length =
        (command.found files loaded).length ↔
      ∀ path ∈ command.found files loaded, ∀ other ∈ command.found files loaded,
        isDocumented files (command.apply loaded.config.options) path →
        isDocumented files (command.apply loaded.config.options) other →
        relativeTo? path files.workFolder ≠ some other) ∧
    ((∀ text ∈ command.paths, isAbsolute text.toList) ∨ (∀ text ∈ command.paths, isAbsolute text.toList = false) →
      (command.report files loaded).documents.length + (command.report files loaded).failures.length =
        (command.found files loaded).length) := by
  have hparts {path other : List Char} (hpath : path ∈ command.found files loaded)
      (hother : other ∈ command.found files loaded) (hne : path ≠ other) : parts path ≠ parts other :=
    fun h => hne (List.inj_on_of_nodup_map (nodup_map_parts_sortDistinct _) hpath hother h)
  obtain ⟨hle, heq⟩ := length_report_eq_iff files command loaded
  refine ⟨runParse_eq_outcome hload hfound, fun path hpath other hother hne => ?_, hle, heq, fun hpaths => ?_⟩
  · exact label_eq_iff files (hparts hpath hother hne)
  · refine heq.mpr fun path hpath other hother _ _ hseen => ?_
    obtain ⟨habsolute, hrelative, -⟩ := relativeTo?_spec hseen
    rcases isAbsolute_of_mem_found hroot hwork hload hpaths with hall | hall
    · exact Bool.noConfusion (hrelative.symm.trans (hall other hother))
    · exact Bool.noConfusion (habsolute.symm.trans (hall path hpath))

/-- What is loaded in the folder of the one component, which has no configuration file. -/
def loadedDefault : Config.Loaded :=
  ⟨{}, "/app".toList, false⟩

theorem loadConfig_oneComponent :
    Files.oneComponent.loadConfig Files.oneComponent.workFolder = .ok loadedDefault := by
  have hconfig : Files.oneComponent.findConfig? Files.oneComponent.workFolder = none := by decide
  rw [Files.loadConfig, hconfig]
  rfl

/-- Given by its absolute path and by that of a folder around it, the one component is found and kept once. -/
theorem documents_and_failures_add_up_oneComponent :
    Files.oneComponent.root.WellFormed ∧ isAbsolute Files.oneComponent.workFolder ∧
    Files.oneComponent.loadConfig Files.oneComponent.workFolder = .ok loadedDefault ∧
    ParseCommand.found { paths := ["/app/a.svelte", "/"] } Files.oneComponent loadedDefault =
      ["/app/a.svelte".toList] ∧
    (ParseCommand.report { paths := ["/app/a.svelte", "/"] } Files.oneComponent loadedDefault).documents.length +
      (ParseCommand.report { paths := ["/app/a.svelte", "/"] } Files.oneComponent loadedDefault).failures.length =
      1 := by
  have hfound : ParseCommand.found { paths := ["/app/a.svelte", "/"] } Files.oneComponent loadedDefault =
      ["/app/a.svelte".toList] := by cbv
  obtain ⟨-, -, -, -, hsum⟩ := documents_and_failures_add_up_iff Files.oneComponent Files.wellFormed_oneComponent rfl
    { paths := ["/app/a.svelte", "/"] } loadedDefault loadConfig_oneComponent (by simp [hfound])
  refine ⟨Files.wellFormed_oneComponent, rfl, loadConfig_oneComponent, hfound, ?_⟩
  rw [hsum (.inl (by decide)), hfound]
  rfl

/-- Given by its relative and its absolute path, the one component is found twice, and one document is kept. -/
theorem document_overwritten_by_relative_path :
    ¬ ∀ (files : Files) (command : ParseCommand) (loaded : Config.Loaded), files.root.WellFormed →
      isAbsolute files.workFolder → files.loadConfig files.workFolder = .ok loaded →
      command.found files loaded ≠ [] →
      (command.report files loaded).documents.length + (command.report files loaded).failures.length =
        (command.found files loaded).length := by
  intro h
  have hfound : ParseCommand.found { paths := ["a.svelte", "/app/a.svelte"] } Files.oneComponent loadedDefault =
      ["/app/a.svelte".toList, "a.svelte".toList] := by cbv
  have hsum := h Files.oneComponent { paths := ["a.svelte", "/app/a.svelte"] } loadedDefault
    Files.wellFormed_oneComponent rfl loadConfig_oneComponent (by simp [hfound])
  refine (length_report_eq_iff _ _ _).2.mp hsum "/app/a.svelte".toList ?_ "a.svelte".toList ?_ ?_ ?_ (by decide)
  · simp [hfound]
  · simp [hfound]
  · cbv
  · cbv

end ComponentDoc.Cli
