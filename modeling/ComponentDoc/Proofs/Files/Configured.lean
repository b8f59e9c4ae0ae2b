import ComponentDoc.Config.Load
import ComponentDoc.Proofs.Files.Lookup
import ComponentDoc.Proofs.Path.Relative

namespace ComponentDoc

open Text ComponentDoc.Path

theorem Path.Part.text_of_part? {piece : List Char} {part : Part} (h : part? piece = some part) : part.text = piece := by
  unfold part? at h
  split_ifs at h with hidle hparent
  · obtain rfl := Option.some.inj h
    exact (beq_iff_eq.mp hparent).symm
  · obtain rfl := Option.some.inj h
    rfl

/-- The pieces of a path that count are those that its components stand for. -/
theorem Path.map_text_filterMap_part? (pieces : List (List Char)) :
    (pieces.filterMap part?).map Part.text = pieces.filter (!isIdle ·) := by
  induction pieces with
  | nil => rfl
  | cons piece pieces ih =>
    cases hpart : part? piece with
    | none =>
      rw [List.filterMap_cons_none hpart, List.filter_cons_of_neg (by simpa using isIdle_iff.mpr hpart), ih]
    | some part =>
      have hidle : ¬ isIdle piece := fun h => by
        rw [isIdle_iff.mp h] at hpart
        cases hpart
      rw [List.filterMap_cons_some hpart, List.map_cons, Part.text_of_part? hpart, ih,
        List.filter_cons_of_pos (by simpa using hidle)]

namespace Files

/-- What stands at a path is a folder with an entry of this name. -/
def holds (files : Files) (folder name : List Char) : Bool :=
  (files.get? folder).any fun tree => (tree.child? name).isSome

theorem isThere_join_eq_holds (files : Files) {folder name : List Char} (hfolder : folder ≠ []) (hname : IsName name) :
    files.isThere (join folder name) = files.holds folder name := by
  rw [isThere, files.get?_join hfolder hname, holds]
  cases files.get? folder <;> rfl

/-- Past a place that no piece leads on from, nothing is found. -/
theorem follow?_bind_of_stuck {trail : List FileTree} (h : ∀ piece, step? piece trail = none)
    (pieces : List (List Char)) (name : List Char) : (follow? trail pieces).bind (step? name) = none := by
  cases pieces with
  | nil => exact h name
  | cons piece pieces => rw [follow?, h piece]; rfl

/-- On the way to an entry, the pieces that do not count can be left out. -/
theorem follow?_filter_bind (trail : List FileTree) (pieces : List (List Char)) (name : List Char) :
    (follow? trail (pieces.filter (!isIdle ·))).bind (step? name) = (follow? trail pieces).bind (step? name) := by
  induction pieces generalizing trail with
  | nil => rfl
  | cons piece pieces ih =>
    by_cases hidle : isIdle piece
    · rw [List.filter_cons_of_neg (by simpa using hidle), ih, follow?]
      rcases trail with _ | ⟨_ | entries, outer⟩
      · exact follow?_bind_of_stuck (fun _ => rfl) pieces name
      · exact follow?_bind_of_stuck (fun _ => rfl) pieces name
      · simp only [step?, hidle, if_true, Option.bind_some]
    · rw [List.filter_cons_of_pos (by simpa using hidle), follow?, follow?, Option.bind_assoc, Option.bind_assoc]
      exact congrArg _ (funext fun trail => ih trail)

/-- What a folder holds is found along the components of its path. -/
theorem holds_eq (files : Files) {folder name : List Char} (hfolder : isAbsolute folder) (hname : IsName name) :
    files.holds folder name =
      (((follow? [files.root] ((parts folder).tail.map Part.text)).bind (step? name)).bind List.head?).isSome := by
  have hpiece := isAbsolute_eq_false_of_not_mem hname.2.2.2
  have hjoin : join files.workFolder folder = folder := by simp [join, hfolder]
  have hne := ne_nil_of_isAbsolute hfolder
  obtain ⟨rest, rfl⟩ := exists_of_isAbsolute hfolder
  rw [← files.isThere_join_eq_holds hne hname, isThere, files.get?_eq (join_ne_nil hne hpiece),
    files.trail?_join hne hname.2.2.2, trail?, hjoin, splitOn_cons_self, parts_cons_slash, List.tail_cons,
    List.tail_cons, map_text_filterMap_part?, follow?_filter_bind]

/-- Two ways of writing a path lead to a folder with the same entries. -/
theorem holds_congr (files : Files) {folder other name : List Char} (hfolder : isAbsolute folder)
    (hother : isAbsolute other) (hname : IsName name) (h : parts folder = parts other) :
    files.holds folder name = files.holds other name := by
  rw [files.holds_eq hfolder hname, files.holds_eq hother hname, h]

def isConfigured (files : Files) (folder : List Char) : Bool :=
  files.holds folder Config.fileName.toList

/-- A folder is the top of a repository. -/
def isTop (files : Files) (folder : List Char) : Bool :=
  files.holds folder ".git".toList

theorem isName_configFileName : IsName Config.fileName.toList := by decide

/-- The search looks at a folder and then goes on from the one that it is in. -/
theorem findConfig?_eq (files : Files) {start : List Char} (hstart : isAbsolute start) :
    files.findConfig? start =
      if files.isConfigured start then some (join start Config.fileName.toList)
      else if files.isTop start then none
      else (parent? start).bind files.findConfig? := by
  have hne := ne_nil_of_isAbsolute hstart
  rw [findConfig?, findConfigIn, files.isThere_join_eq_holds hne isName_configFileName,
    files.isThere_join_eq_holds hne (by decide)]
  change (if files.isConfigured start then _ else if files.isTop start then _ else _) = _
  cases hup : parent? start with
  | none =>
    rw [List.head?_eq_none_iff.mp hup]
    rfl
  | some up =>
    rw [(parent?_spec hstart hup).1]
    rfl

/-- Of the folders around a place, the place being one of them, the nearest that has a configuration, no nearer one
being the top of a repository. A folder is around a place if its components are the first ones of the place, where
`..` is a component as names are. -/
structure Governs (files : Files) (place folder : List Char) : Prop where
  absolute : isAbsolute folder
  around : parts folder <+: parts place
  configured : files.isConfigured folder
  nearest (nearer : List Char) : isAbsolute nearer → parts nearer <+: parts place →
    (parts folder).length < (parts nearer).length → files.isConfigured nearer = false ∧ files.isTop nearer = false

section

variable {files : Files} {start folder : List Char}

theorem Governs.shorter_or_eq (h : files.Governs start folder) :
    (parts folder).length < (parts start).length ∨ parts folder = parts start := by
  rcases h.around.length_le.lt_or_eq with hlt | heq
  · exact .inl hlt
  · exact .inr (h.around.eq_of_length heq)

theorem isConfigured_congr {other : List Char} (hfolder : isAbsolute folder) (hother : isAbsolute other)
    (h : parts folder = parts other) : files.isConfigured folder = files.isConfigured other :=
  files.holds_congr hfolder hother isName_configFileName h

theorem governs_of_isConfigured (hstart : isAbsolute start) (h : files.isConfigured start) :
    files.Governs start folder ↔ isAbsolute folder ∧ parts folder = parts start := by
  constructor
  · intro hgoverns
    refine ⟨hgoverns.absolute, hgoverns.shorter_or_eq.resolve_left fun hlt => ?_⟩
    have hnot := (hgoverns.nearest start hstart (List.prefix_refl _) hlt).1
    rw [h] at hnot
    cases hnot
  · rintro ⟨hfolder, hparts⟩
    refine ⟨hfolder, hparts ▸ List.prefix_refl _, (isConfigured_congr hfolder hstart hparts).trans h, ?_⟩
    intro nearer _ haround hlt
    have hle := haround.length_le
    rw [hparts] at hlt
    omega

/-- The folder of a place that has no configuration itself is another one around it. -/
theorem Governs.shorter (h : files.Governs start folder) (hstart : isAbsolute start)
    (hnot : files.isConfigured start = false) : (parts folder).length < (parts start).length := by
  refine h.shorter_or_eq.resolve_right fun hparts => ?_
  have hconfigured := h.configured
  rw [isConfigured_congr h.absolute hstart hparts, hnot] at hconfigured
  cases hconfigured

theorem not_governs_of_isTop (hstart : isAbsolute start) (hnot : files.isConfigured start = false)
    (htop : files.isTop start) : ¬ files.Governs start folder := by
  intro h
  have hclear := (h.nearest start hstart (List.prefix_refl _) (h.shorter hstart hnot)).2
  rw [htop] at hclear
  cases hclear

/-- Where there is neither a configuration nor the top of a repository, the folder one up is governed by the same. -/
theorem governs_parent_iff {up : List Char} {last : Part} (hstart : isAbsolute start)
    (hnot : files.isConfigured start = false) (htop : files.isTop start = false)
    (hparts : parts start = parts up ++ [last]) : files.Governs start folder ↔ files.Governs up folder := by
  constructor
  · intro h
    have haround : parts folder <+: parts up := by
      refine (List.prefix_concat_iff.mp (hparts ▸ h.around)).resolve_left fun heq => ?_
      exact (h.shorter hstart hnot).ne (by rw [hparts, heq])
    refine ⟨h.absolute, haround, h.configured, fun nearer hnearer hprefix hlt => ?_⟩
    exact h.nearest nearer hnearer (hparts ▸ hprefix.trans (List.prefix_append _ _)) hlt
  · intro h
    refine ⟨h.absolute, hparts ▸ h.around.trans (List.prefix_append _ _), h.configured, ?_⟩
    intro nearer hnearer hprefix hlt
    rcases List.prefix_concat_iff.mp (hparts ▸ hprefix) with heq | hprefix
    · have hsame : parts nearer = parts start := heq.trans hparts.symm
      exact ⟨(isConfigured_congr hnearer hstart hsame).trans hnot,
        (files.holds_congr hnearer hstart (by decide) hsame).trans htop⟩
    · exact h.nearest nearer hnearer hprefix hlt

/-- Nothing is left to be looked at above the root. -/
theorem not_governs_of_root (hstart : isAbsolute start) (hnot : files.isConfigured start = false)
    (hroot : parts start = [.root]) : ¬ files.Governs start folder := by
  intro h
  have hlt := h.shorter hstart hnot
  obtain ⟨rest, rfl⟩ := exists_of_isAbsolute h.absolute
  rw [hroot, parts_cons_slash] at hlt
  simp at hlt

/-- What governs a place, as the search steps up from it. -/
theorem governs_iff (hstart : isAbsolute start) :
    files.Governs start folder ↔
      if files.isConfigured start then isAbsolute folder ∧ parts folder = parts start
      else if files.isTop start then False
      else ∃ up ∈ parent? start, files.Governs up folder := by
  split_ifs with hconfigured htop
  · exact governs_of_isConfigured hstart hconfigured
  · exact iff_false_intro (not_governs_of_isTop hstart (by simpa using hconfigured) htop)
  · rw [Bool.not_eq_true] at hconfigured htop
    cases hup : parent? start with
    | none => simp [not_governs_of_root hstart hconfigured (parts_of_parent?_eq_none hstart hup)]
    | some up =>
      obtain ⟨-, -, last, hparts⟩ := parent?_spec hstart hup
      simp [governs_parent_iff hstart hconfigured htop hparts]

theorem Governs.parts_eq {other : List Char} (h : files.Governs start folder) (hother : files.Governs start other) :
    parts folder = parts other := by
  have hle {folder other : List Char} (h : files.Governs start folder) (hother : files.Governs start other) :
      (parts other).length ≤ (parts folder).length := by
    by_contra hlt
    have hnot := (h.nearest other hother.absolute hother.around (by omega)).1
    rw [hother.configured] at hnot
    cases hnot
  have hlength := (hle hother h).antisymm (hle h hother)
  exact (List.prefix_of_prefix_length_le h.around hother.around hlength.le).eq_of_length hlength

/-- What the search gives, by induction on the components that are left. -/
theorem findConfig?_spec (hstart : isAbsolute start) :
    (∀ path, files.findConfig? start = some path →
      ∃ folder, files.Governs start folder ∧ path = join folder Config.fileName.toList) ∧
    (files.findConfig? start = none → ∀ folder, ¬ files.Governs start folder) := by
  induction hlength : (parts start).length using Nat.strong_induction_on generalizing start with
  | _ n ih =>
    simp only [governs_iff hstart, files.findConfig?_eq hstart]
    split_ifs with hconfigured htop
    · exact ⟨fun _ h => ⟨start, ⟨hstart, rfl⟩, (Option.some.inj h).symm⟩, fun h => nomatch h⟩
    · simp
    · cases hup : parent? start with
      | none => simp
      | some up =>
        obtain ⟨-, habsolute, last, hparts⟩ := parent?_spec hstart hup
        simpa using ih _ (by simp [← hlength, hparts]) habsolute rfl

end

/-- The search for a configuration goes up from an absolute path, one component less at each step, and ends at the
root at the latest. It gives the configuration file of the folder that governs the path, and none just when no folder
does. -/
theorem findConfig?_gives_governing (files : Files) (start : List Char) (hstart : isAbsolute start) :
    (files.findConfig? start =
      if files.isConfigured start then some (join start Config.fileName.toList)
      else if files.isTop start then none
      else (parent? start).bind files.findConfig?) ∧
    (parent? start = none → parts start = [.root]) ∧
    (∀ up, parent? start = some up → isAbsolute up ∧ ∃ last, parts start = parts up ++ [last]) ∧
    (∀ path, files.findConfig? start = some path →
      ∃ folder, files.Governs start folder ∧ path = join folder Config.fileName.toList) ∧
    (∀ folder, files.Governs start folder → ∃ path, files.findConfig? start = some path ∧
      parts path = parts folder ++ [.name Config.fileName.toList]) ∧
    (files.findConfig? start = none ↔ ∀ folder, ¬ files.Governs start folder) := by
  obtain ⟨hsome, hnone⟩ := @findConfig?_spec files start hstart
  refine ⟨files.findConfig?_eq hstart, parts_of_parent?_eq_none hstart, fun up hup => (parent?_spec hstart hup).2,
    hsome, ?_, hnone, ?_⟩
  · intro folder hgoverns
    cases hfound : files.findConfig? start with
    | none => exact absurd hgoverns (hnone hfound folder)
    | some path =>
      obtain ⟨other, hother, rfl⟩ := hsome path hfound
      refine ⟨_, rfl, ?_⟩
      rw [parts_join (ne_nil_of_isAbsolute hother.absolute) isName_configFileName.2.2.2,
        part?_eq_some isName_configFileName, hother.parts_eq hgoverns]
      rfl
  · intro hnot
    cases hfound : files.findConfig? start with
    | none => rfl
    | some path =>
      obtain ⟨folder, hgoverns, -⟩ := hsome path hfound
      exact absurd hgoverns (hnot folder)

/-- Two repositories, of which the first has a configuration, below a folder that has one too. -/
def twoRepositories : Files where
  root := .folder [(Config.fileName.toList, .file ByteArray.empty),
    ("a".toList, .folder [(".git".toList, .folder []), (Config.fileName.toList, .file ByteArray.empty),
      ("b".toList, .folder [])]),
    ("c".toList, .folder [(".git".toList, .folder []), ("d".toList, .folder [])])]
  workFolder := "/".toList

/-- The folder that is the top of a repository and has a configuration governs those below it; at the top of the other
repository the search ends. -/
theorem findConfig?_gives_governing_twoRepositories :
    isAbsolute "/a//b/.".toList ∧ isAbsolute "/c/d".toList ∧
    (∃ folder, twoRepositories.Governs "/a//b/.".toList folder ∧
      "/a/.sveltedocrc.json".toList = join folder Config.fileName.toList) ∧
    ∀ folder, ¬ twoRepositories.Governs "/c/d".toList folder := by
  obtain ⟨-, -, -, hfound, -⟩ := findConfig?_gives_governing twoRepositories "/a//b/.".toList rfl
  obtain ⟨-, -, -, -, -, hnone⟩ := findConfig?_gives_governing twoRepositories "/c/d".toList rfl
  exact ⟨rfl, rfl, hfound _ (by decide), hnone.mp (by decide)⟩

end Files

end ComponentDoc
