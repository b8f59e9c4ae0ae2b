import ComponentDoc.Glob.Expand
import ComponentDoc.Proofs.Files.Lookup

/-!
The paths that the components of a pattern describe. A component stands for one piece of a path, two stars for any
number of names. Expanding a pattern in a well-formed tree gives just the paths that are there and whose pieces the
pattern describes; two stars at its end describe folders only.
-/
namespace ComponentDoc

open Text ComponentDoc.Path

namespace Glob

/-- A component of a pattern stands for each name of an entry that it fits, for the piece that it spells, and for
`.` and `..` if it fits them and starts with a dot. -/
def Pattern.StandsFor (pattern : Pattern) (piece : List Char) : Prop :=
  pattern.fits piece ∧ (IsName piece ∨ pattern.literal? = some piece ∨
    pattern.head? = some (.char '.') ∧ (piece = ['.'] ∨ piece = ['.', '.']))

/-- The components of a pattern describe the pieces of a path. -/
inductive Describes : List Pattern → List (List Char) → Prop where
  | nothing : Describes [] []
  | piece {pattern : Pattern} {rest : List Pattern} {piece : List Char} {pieces : List (List Char)}
      (single : pattern.isAnyPath = false) (stands : pattern.StandsFor piece)
      (describes : Describes rest pieces) : Describes (pattern :: rest) (piece :: pieces)
  /-- Two stars at the end go at least one folder down. -/
  | folders {names : List (List Char)} (down : names ≠ []) (ordinary : ∀ n ∈ names, IsName n) :
      Describes [[.anyPath]] names
  /-- Two stars pass over names, and an entry comes after them. -/
  | deeper {rest : List Pattern} {names pieces : List (List Char)} {name : List Char}
      (ordinary : ∀ n ∈ names, IsName n) (entry : IsName name) (describes : Describes rest (name :: pieces)) :
      Describes ([.anyPath] :: rest) (names ++ name :: pieces)

theorem Pattern.isAnyPath_iff {pattern : Pattern} : pattern.isAnyPath ↔ pattern = [.anyPath] := by
  simp [Pattern.isAnyPath]

theorem isAnyPath_anyPath : Pattern.isAnyPath [.anyPath] = true := rfl

theorem Pattern.literal?_eq_some_iff {pattern : Pattern} {text : List Char} :
    pattern.literal? = some text ↔ pattern = text.map Token.char := by
  induction pattern generalizing text with
  | nil => cases text <;> simp [Pattern.literal?]
  | cons token tokens ih =>
    cases token with
    | char c =>
      cases text with
      | nil => simp [Pattern.literal?]
      | cons d text => simp [Pattern.literal?, ih, and_comm]
    | _ => cases text <;> simp [Pattern.literal?]

theorem Pattern.fits_literal {text cs : List Char} : Pattern.fits (text.map Token.char) cs ↔ cs = text := by
  induction text generalizing cs with
  | nil => simp [Pattern.fits]
  | cons c text ih =>
    cases cs with
    | nil => simp [Pattern.fits]
    | cons d cs => simp [Pattern.fits, Token.accepts, ih]

/-- A component without wildcards stands for what it spells and nothing else. -/
theorem Pattern.standsFor_iff_eq {pattern : Pattern} {text piece : List Char} (h : pattern.literal? = some text) :
    pattern.StandsFor piece ↔ piece = text := by
  obtain rfl := Pattern.literal?_eq_some_iff.mp h
  constructor
  · rintro ⟨hfits, -⟩
    exact Pattern.fits_literal.mp hfits
  · rintro rfl
    exact ⟨Pattern.fits_literal.mpr rfl, .inr (.inl h)⟩

theorem Pattern.standsFor_name {pattern : Pattern} {name : List Char} (hname : IsName name) :
    pattern.StandsFor name ↔ pattern.fits name :=
  ⟨And.left, fun h => ⟨h, .inl hname⟩⟩

theorem mem_dotNames_iff {pattern : Pattern} {name : List Char} : name ∈ dotNames pattern ↔
    pattern.fits name ∧ pattern.head? = some (.char '.') ∧ (name = ['.'] ∨ name = ['.', '.']) := by
  unfold dotNames
  split
  · simp only [List.mem_filter, List.mem_cons, List.not_mem_nil, or_false, List.head?_cons, true_and]
    rw [and_comm, or_comm]
  · next hdot =>
    simp only [List.not_mem_nil, false_iff]
    rintro ⟨-, hhead, -⟩
    obtain ⟨rest, hrest⟩ := List.head?_eq_some_iff.mp hhead
    exact hdot rest hrest

theorem describes_nil_iff {pieces : List (List Char)} : Describes [] pieces ↔ pieces = [] := by
  constructor
  · intro h
    cases h with
    | nothing => rfl
  · rintro rfl
    exact .nothing

theorem describes_piece_iff {pattern : Pattern} {rest : List Pattern} {pieces : List (List Char)}
    (hsingle : pattern.isAnyPath = false) : Describes (pattern :: rest) pieces ↔
      ∃ piece more, pieces = piece :: more ∧ pattern.StandsFor piece ∧ Describes rest more := by
  constructor
  · intro h
    cases h with
    | piece _ stands describes => exact ⟨_, _, rfl, stands, describes⟩
    | folders => cases hsingle
    | deeper => cases hsingle
  · rintro ⟨piece, more, rfl, hstands, hdescribes⟩
    exact .piece hsingle hstands hdescribes

theorem describes_folders_iff {pieces : List (List Char)} :
    Describes [[.anyPath]] pieces ↔ pieces ≠ [] ∧ ∀ n ∈ pieces, IsName n := by
  constructor
  · intro h
    cases h with
    | piece single => cases single
    | folders down ordinary => exact ⟨down, ordinary⟩
    | deeper _ _ describes => cases describes
  · rintro ⟨hdown, hordinary⟩
    exact .folders hdown hordinary

theorem describes_deeper_iff {next : Pattern} {rest : List Pattern} {pieces : List (List Char)} :
    Describes ([.anyPath] :: next :: rest) pieces ↔ ∃ names name more, pieces = names ++ name :: more ∧
      (∀ n ∈ names, IsName n) ∧ IsName name ∧ Describes (next :: rest) (name :: more) := by
  constructor
  · intro h
    cases h with
    | piece single => cases single
    | deeper ordinary entry describes => exact ⟨_, _, _, rfl, ordinary, entry, describes⟩
  · rintro ⟨names, name, more, rfl, hordinary, hentry, hdescribes⟩
    exact .deeper hordinary hentry hdescribes

/-- Texts in front of a pattern are the first pieces of all that it describes. -/
theorem describes_literals_append_iff {texts : List (List Char)} {rest : List Pattern} {pieces : List (List Char)} :
    Describes (texts.map (List.map Token.char) ++ rest) pieces ↔
      ∃ more, pieces = texts ++ more ∧ Describes rest more := by
  induction texts generalizing pieces with
  | nil => simp
  | cons text texts ih =>
    have hliteral : Pattern.literal? (text.map Token.char) = some text := Pattern.literal?_eq_some_iff.mpr rfl
    have hsingle : Pattern.isAnyPath (text.map Token.char) = false := by
      rw [Bool.eq_false_iff]
      intro hany
      rw [Pattern.isAnyPath_iff.mp hany] at hliteral
      cases hliteral
    rw [List.map_cons, List.cons_append, describes_piece_iff hsingle]
    simp only [Pattern.standsFor_iff_eq hliteral, ih]
    constructor
    · rintro ⟨_, _, rfl, rfl, more, rfl, hdescribes⟩
      exact ⟨more, rfl, hdescribes⟩
    · rintro ⟨more, rfl, hdescribes⟩
      exact ⟨text, _, rfl, rfl, more, rfl, hdescribes⟩

/-- Pieces have no slash in them if no component spells one. -/
theorem Describes.no_slash {patterns : List Pattern} {pieces : List (List Char)} (h : Describes patterns pieces)
    (hliteral : ∀ p ∈ patterns, ∀ text, p.literal? = some text → '/' ∉ text) :
    ∀ piece ∈ pieces, '/' ∉ piece := by
  induction h with
  | nothing => simp
  | @piece pattern rest piece pieces _ stands _ ih =>
    obtain ⟨hfirst, hrest⟩ := List.forall_mem_cons.mp hliteral
    refine List.forall_mem_cons.mpr ⟨?_, ih hrest⟩
    rcases stands.2 with hname | hspelled | ⟨-, rfl | rfl⟩
    · exact hname.2.2.2
    · exact hfirst piece hspelled
    · decide
    · decide
  | folders _ ordinary => exact fun piece hpiece => (ordinary piece hpiece).2.2.2
  | deeper ordinary _ _ ih =>
    obtain ⟨-, hrest⟩ := List.forall_mem_cons.mp hliteral
    intro piece hpiece
    rcases List.mem_append.mp hpiece with hpiece | hpiece
    · exact (ordinary piece hpiece).2.2.2
    · exact ih hrest piece hpiece

/-- Two stars say no more when they are written twice. -/
theorem describes_twice_iff {rest : List Pattern} {pieces : List (List Char)} :
    Describes ([.anyPath] :: [.anyPath] :: rest) pieces ↔ Describes ([.anyPath] :: rest) pieces := by
  rw [describes_deeper_iff]
  constructor
  · rintro ⟨names, name, more, rfl, hnames, hname, hdescribes⟩
    generalize name :: more = pieces at hdescribes ⊢
    cases hdescribes with
    | piece single => cases single
    | folders down ordinary =>
      exact .folders (by simp [down]) (List.forall_mem_append.mpr ⟨hnames, ordinary⟩)
    | deeper ordinary entry describes =>
      rw [← List.append_assoc]
      exact .deeper (List.forall_mem_append.mpr ⟨hnames, ordinary⟩) entry describes
  · intro h
    have hfirst : ∃ name more, pieces = name :: more ∧ IsName name := by
      cases h with
      | piece single => cases single
      | folders down ordinary =>
        obtain ⟨name, more, rfl⟩ := List.exists_cons_of_ne_nil down
        exact ⟨name, more, rfl, ordinary name List.mem_cons_self⟩
      | @deeper _ names more name ordinary entry describes =>
        cases names with
        | nil => exact ⟨name, more, rfl, entry⟩
        | cons first names => exact ⟨first, names ++ name :: more, rfl, ordinary first List.mem_cons_self⟩
    obtain ⟨name, more, rfl, hname⟩ := hfirst
    exact ⟨[], name, more, rfl, by simp, hname, h⟩

theorem describes_cons_congr (pattern : Pattern) {rest rest' : List Pattern} (hnil : rest = [] ↔ rest' = [])
    (h : ∀ pieces, Describes rest pieces ↔ Describes rest' pieces) (pieces : List (List Char)) :
    Describes (pattern :: rest) pieces ↔ Describes (pattern :: rest') pieces := by
  have himp {rest rest' : List Pattern} (hnil : rest = [] → rest' = [])
      (h : ∀ pieces, Describes rest pieces → Describes rest' pieces) (hd : Describes (pattern :: rest) pieces) :
      Describes (pattern :: rest') pieces := by
    cases hd with
    | piece single stands describes => exact .piece single stands (h _ describes)
    | folders down ordinary =>
      rw [hnil rfl]
      exact .folders down ordinary
    | deeper ordinary entry describes => exact .deeper ordinary entry (h _ describes)
  exact ⟨himp hnil.mp fun pieces => (h pieces).mp, himp hnil.mpr fun pieces => (h pieces).mpr⟩

theorem collapse_eq_nil_iff {patterns : List Pattern} : collapse patterns = [] ↔ patterns = [] := by
  fun_induction collapse patterns with
  | case1 => rfl
  | case2 pattern => simp
  | case3 p q rest hboth ih => simp [ih]
  | case4 p q rest hboth ih => simp

theorem getLast?_collapse (patterns : List Pattern) : (collapse patterns).getLast? = patterns.getLast? := by
  fun_induction collapse patterns with
  | case1 => rfl
  | case2 pattern => rfl
  | case3 p q rest hboth ih => rw [ih, List.getLast?_cons_cons]
  | case4 p q rest hboth ih =>
    have hne : collapse (q :: rest) ≠ [] := by simp [collapse_eq_nil_iff]
    rw [List.getLast?_cons_of_ne_nil hne, ih, List.getLast?_cons_cons]

theorem mem_of_mem_collapse {patterns : List Pattern} {p : Pattern} (h : p ∈ collapse patterns) : p ∈ patterns := by
  fun_induction collapse patterns with
  | case1 => exact h
  | case2 pattern => exact h
  | case3 q r rest hboth ih => exact List.mem_cons_of_mem _ (ih h)
  | case4 q r rest hboth ih =>
    rcases List.mem_cons.mp h with rfl | h
    · exact List.mem_cons_self
    · exact List.mem_cons_of_mem _ (ih h)

theorem describes_collapse_iff (patterns : List Pattern) (pieces : List (List Char)) :
    Describes (collapse patterns) pieces ↔ Describes patterns pieces := by
  fun_induction collapse patterns generalizing pieces with
  | case1 => rfl
  | case2 pattern => rfl
  | case3 p q rest hboth ih =>
    rw [Bool.and_eq_true, Pattern.isAnyPath_iff, Pattern.isAnyPath_iff] at hboth
    obtain ⟨rfl, rfl⟩ := hboth
    rw [ih, describes_twice_iff]
  | case4 p q rest hboth ih =>
    exact describes_cons_congr p (by simp [collapse_eq_nil_iff]) ih pieces

theorem mem_inOrder_iff {found : List (List Char × List (List Char))} {path : List Char} :
    path ∈ inOrder found ↔ ∃ e ∈ found, path ∈ e.2 := by
  simp only [inOrder, List.mem_flatten, List.mem_map, List.mem_mergeSort, exists_exists_and_eq_and]

theorem mem_descendEntries_iff {visit : List Char → FileTree → List (List Char)} {path : List Char}
    {entries : List (List Char × FileTree)} {found : List Char × List (List Char)} :
    found ∈ descendEntries visit path entries ↔
      ∃ e ∈ entries, found = (e.1, descend visit (join path e.1) e.2) := by
  induction entries with
  | nil => simp [descendEntries]
  | cons e entries ih => simp [descendEntries, ih]

theorem mem_descend_iff {visit : List Char → FileTree → List (List Char)} {tree : FileTree}
    (htree : tree.WellFormed) {path found : List Char} :
    found ∈ descend visit path tree ↔ ∃ names, (∀ n ∈ names, IsName n) ∧
      ∃ target, tree.at? names = some target ∧ found ∈ visit (under path names) target := by
  refine htree.found_iff (fun path tree => found ∈ descend visit path tree)
    (fun path tree => found ∈ visit path tree) ?_ ?_ path
  · intro path content
    rw [descend]
  · intro path entries
    simp [descend, mem_inOrder_iff, mem_descendEntries_iff]

section

variable {files : Files} {foldersOnly : Bool} {path found : List Char} {tree : FileTree}

/-- What is found below a path by descending is found at what some names lead to from there. -/
theorem mem_descendEntries_get?_iff (hroot : files.root.WellFormed) (hget : files.get? path = some tree)
    {visit : List Char → FileTree → List (List Char)} :
    found ∈ inOrder (descendEntries visit path tree.entries) ↔
      ∃ names, names ≠ [] ∧ (∀ n ∈ names, IsName n) ∧
        ∃ target, files.get? (under path names) = some target ∧ found ∈ visit (under path names) target := by
  have hwell := Files.wellFormed_of_get? hroot hget
  have hat {names : List (List Char)} (hnames : ∀ n ∈ names, IsName n) :
      files.get? (under path names) = tree.at? names := by
    rw [files.get?_under (Files.ne_nil_of_get? hget) hnames, hget]
    rfl
  simp only [mem_inOrder_iff, mem_descendEntries_iff]
  cases hwell with
  | file =>
    simp only [FileTree.entries, List.not_mem_nil, false_and, exists_false, false_iff]
    rintro ⟨names, hne, hnames, target, htarget, -⟩
    obtain ⟨name, more, rfl⟩ := List.exists_cons_of_ne_nil hne
    rw [hat hnames] at htarget
    cases htarget
  | @folder entries distinct ordinary trees =>
    constructor
    · rintro ⟨_, ⟨e, he, rfl⟩, hfound⟩
      obtain ⟨names, hnames, target, htarget, hfound⟩ := (mem_descend_iff (trees e he)).mp hfound
      have hall : ∀ n ∈ e.1 :: names, IsName n := List.forall_mem_cons.mpr ⟨ordinary e he, hnames⟩
      refine ⟨e.1 :: names, by simp, hall, target, ?_, hfound⟩
      rw [hat hall, FileTree.at?, (FileTree.child?_folder_eq_some_iff distinct).mpr he]
      exact htarget
    · rintro ⟨names, hne, hnames, target, htarget, hfound⟩
      obtain ⟨name, more, rfl⟩ := List.exists_cons_of_ne_nil hne
      rw [hat hnames] at htarget
      obtain ⟨child, hchild, htarget⟩ := Option.bind_eq_some_iff.mp htarget
      have hmem := (FileTree.child?_folder_eq_some_iff distinct).mp hchild
      refine ⟨_, ⟨_, hmem, rfl⟩, (mem_descend_iff (trees _ hmem)).mpr ?_⟩
      exact ⟨more, (List.forall_mem_cons.mp hnames).2, target, htarget, hfound⟩

/-- Two stars at the end give the folders below a path. -/
theorem mem_expand_folders_iff (hroot : files.root.WellFormed) (hget : files.get? path = some tree) :
    found ∈ expand files foldersOnly [[.anyPath]] path ↔ ∃ names, names ≠ [] ∧ (∀ n ∈ names, IsName n) ∧
      found = under path names ∧ files.isFolder found := by
  rw [expand]
  simp only [hget, isAnyPath_anyPath, if_true]
  rw [mem_descendEntries_get?_iff hroot hget]
  refine exists_congr fun names => and_congr_right fun _ => and_congr_right fun _ => ?_
  constructor
  · rintro ⟨target, htarget, hfound⟩
    split_ifs at hfound with hfolder
    · obtain rfl := List.mem_singleton.mp hfound
      exact ⟨rfl, by simp [Files.isFolder, htarget, hfolder]⟩
    · cases hfound
  · rintro ⟨rfl, hfolder⟩
    obtain ⟨target, htarget, hfolder⟩ := (Option.any_eq_true _ _).mp hfolder
    exact ⟨target, htarget, by simp [hfolder]⟩

/-- After two stars the pattern goes on from each entry below a path that the next component fits. -/
theorem mem_expand_deeper_iff (hroot : files.root.WellFormed) (hget : files.get? path = some tree)
    {next : Pattern} {rest : List Pattern} :
    found ∈ expand files foldersOnly ([.anyPath] :: next :: rest) path ↔
      ∃ names name, (∀ n ∈ names, IsName n) ∧ IsName name ∧ next.fits name ∧
        files.isThere (under path (names ++ [name])) ∧
        found ∈ expand files foldersOnly rest (under path (names ++ [name])) := by
  rw [expand]
  simp only [hget, isAnyPath_anyPath, if_true]
  rw [mem_descendEntries_get?_iff hroot hget]
  have hfile {names : List (List Char)} {name : List Char} (hnames : ∀ n ∈ names ++ [name], IsName n) :
      fileName? (under path (names ++ [name])) = some name :=
    fileName?_under (Files.ne_nil_of_get? hget) hnames (by simp)
  constructor
  · rintro ⟨all, hne, hall, target, htarget, hfound⟩
    obtain ⟨names, name, rfl⟩ := (List.eq_nil_or_concat' all).resolve_left hne
    rw [hfile hall] at hfound
    split_ifs at hfound with hfits
    · obtain ⟨hnames, hname⟩ := List.forall_mem_append.mp hall
      refine ⟨names, name, hnames, hname name List.mem_cons_self, hfits, ?_, hfound⟩
      rw [Files.isThere, htarget]
      rfl
    · cases hfound
  · rintro ⟨names, name, hnames, hname, hfits, hthere, hfound⟩
    have hall : ∀ n ∈ names ++ [name], IsName n :=
      List.forall_mem_append.mpr ⟨hnames, List.forall_mem_singleton.mpr hname⟩
    obtain ⟨target, htarget⟩ := Option.isSome_iff_exists.mp hthere
    refine ⟨names ++ [name], by simp, hall, target, htarget, ?_⟩
    rw [hfile hall, Option.any_some, if_pos hfits]
    exact hfound

/-- The entries of a folder are what its names lead to. -/
theorem mem_entries_iff (hroot : files.root.WellFormed) (hget : files.get? path = some tree)
    {name : List Char} {child : FileTree} : (name, child) ∈ tree.entries ↔
      IsName name ∧ tree.child? name = some child := by
  cases Files.wellFormed_of_get? hroot hget with
  | file => simp [FileTree.entries, FileTree.child?]
  | @folder entries distinct ordinary trees =>
    rw [FileTree.child?_folder_eq_some_iff distinct]
    exact ⟨fun h => ⟨ordinary _ h, h⟩, And.right⟩

/-- A component without wildcards goes on from the piece that it spells, if that is there. -/
theorem mem_expand_literal_iff (hget : files.get? path = some tree) {pattern : Pattern} {rest : List Pattern}
    {name : List Char} (hliteral : pattern.literal? = some name) (hsingle : pattern.isAnyPath = false) :
    found ∈ expand files foldersOnly (pattern :: rest) path ↔
      files.isThere (join path name) ∧ found ∈ expand files foldersOnly rest (join path name) := by
  rw [expand]
  simp only [hget, hsingle, Bool.false_eq_true, if_false, hliteral]
  have hcheck : (if name == ['.'] || name == ['.', '.'] then tree.isFolder else files.isThere (join path name)) =
      files.isThere (join path name) := by
    split_ifs with hdots
    · rw [Files.isThere_join_dots hget (by simpa using hdots)]
    · rfl
  rw [hcheck, List.mem_ite_nil_right]

/-- A component with wildcards goes on from `.` and `..`, if it fits them and starts with a dot, and from the entries
that it fits. -/
theorem mem_expand_wildcard_iff (hget : files.get? path = some tree) {pattern : Pattern} {rest : List Pattern}
    (hliteral : pattern.literal? = none) (hsingle : pattern.isAnyPath = false) :
    found ∈ expand files foldersOnly (pattern :: rest) path ↔ tree.isFolder ∧ ∃ piece, pattern.fits piece ∧
      (pattern.head? = some (.char '.') ∧ (piece = ['.'] ∨ piece = ['.', '.']) ∨
        ∃ child, (piece, child) ∈ tree.entries) ∧ found ∈ expand files foldersOnly rest (join path piece) := by
  rw [expand]
  simp only [hget, hsingle, Bool.false_eq_true, if_false, hliteral]
  rw [List.mem_ite_nil_right]
  refine and_congr_right fun _ => ?_
  rw [List.mem_append, List.mem_flatMap, mem_inOrder_iff]
  constructor
  · rintro (⟨piece, hpiece, hfound⟩ | ⟨_, hmem, hfound⟩)
    · obtain ⟨hfits, hdots⟩ := mem_dotNames_iff.mp hpiece
      exact ⟨piece, hfits, .inl hdots, hfound⟩
    · obtain ⟨e, he, rfl⟩ := List.mem_map.mp hmem
      obtain ⟨he, hfits⟩ := List.mem_filter.mp he
      exact ⟨e.1, hfits, .inr ⟨e.2, he⟩, hfound⟩
  · rintro ⟨piece, hfits, hdots | ⟨child, hchild⟩, hfound⟩
    · exact .inl ⟨piece, mem_dotNames_iff.mpr ⟨hfits, hdots⟩, hfound⟩
    · exact .inr ⟨_, List.mem_map_of_mem (List.mem_filter.mpr ⟨hchild, hfits⟩), hfound⟩

/-- A component other than two stars goes on from each piece below a path that it stands for and that is there. -/
theorem mem_expand_piece_iff (hroot : files.root.WellFormed) (hget : files.get? path = some tree)
    {pattern : Pattern} {rest : List Pattern} (hsingle : pattern.isAnyPath = false) :
    found ∈ expand files foldersOnly (pattern :: rest) path ↔ ∃ piece, pattern.StandsFor piece ∧
      files.isThere (join path piece) ∧ found ∈ expand files foldersOnly rest (join path piece) := by
  cases hliteral : pattern.literal? with
  | some name =>
    rw [mem_expand_literal_iff hget hliteral hsingle]
    simp only [Pattern.standsFor_iff_eq hliteral, exists_eq_left]
  | none =>
    rw [mem_expand_wildcard_iff hget hliteral hsingle]
    constructor
    · rintro ⟨hfolder, piece, hfits, ⟨hhead, hdots⟩ | ⟨child, hchild⟩, hfound⟩
      · refine ⟨piece, ⟨hfits, .inr (.inr ⟨hhead, hdots⟩)⟩, ?_, hfound⟩
        rw [Files.isThere_join_dots hget hdots]
        exact hfolder
      · obtain ⟨hname, hchild⟩ := (mem_entries_iff hroot hget).mp hchild
        refine ⟨piece, (Pattern.standsFor_name hname).mpr hfits, ?_, hfound⟩
        rw [Files.isThere_join_iff hname hget, hchild]
        rfl
    · rintro ⟨piece, ⟨hfits, hname | hspelled | ⟨hhead, hdots⟩⟩, hthere, hfound⟩
      · obtain ⟨child, hchild⟩ := Option.isSome_iff_exists.mp ((Files.isThere_join_iff hname hget).mp hthere)
        have hfolder : tree.isFolder := by
          cases tree with
          | file content => cases hchild
          | folder entries => rfl
        exact ⟨hfolder, piece, hfits, .inr ⟨child, (mem_entries_iff hroot hget).mpr ⟨hname, hchild⟩⟩, hfound⟩
      · rw [hliteral] at hspelled
        cases hspelled
      · rw [Files.isThere_join_dots hget hdots] at hthere
        exact ⟨hthere, piece, hfits, .inl ⟨hhead, hdots⟩, hfound⟩

/-- The pieces that a pattern describes lead from a path to what is there: to a folder, if folders are asked for or the
pattern ends with two stars. -/
def Reaches (files : Files) (foldersOnly : Bool) (patterns : List Pattern) (path found : List Char) : Prop :=
  ∃ pieces, Describes patterns pieces ∧ found = under path pieces ∧ files.isThere found ∧
    (foldersOnly ∨ patterns.getLast? = some [.anyPath] → files.isFolder found)

theorem reaches_nil_iff : Reaches files foldersOnly [] path found ↔
    found = path ∧ files.isThere found ∧ (foldersOnly → files.isFolder found) := by
  simp [Reaches, describes_nil_iff]

theorem reaches_folders_iff : Reaches files foldersOnly [[.anyPath]] path found ↔
    ∃ names, names ≠ [] ∧ (∀ n ∈ names, IsName n) ∧ found = under path names ∧ files.isFolder found := by
  constructor
  · rintro ⟨names, hdescribes, rfl, -, hfolder⟩
    obtain ⟨hdown, hnames⟩ := describes_folders_iff.mp hdescribes
    exact ⟨names, hdown, hnames, rfl, hfolder (.inr rfl)⟩
  · rintro ⟨names, hdown, hnames, rfl, hfolder⟩
    exact ⟨names, .folders hdown hnames, rfl, Files.isThere_of_isFolder hfolder, fun _ => hfolder⟩

theorem getLast?_cons_eq_anyPath_iff {pattern : Pattern} {rest : List Pattern} (hsingle : pattern.isAnyPath = false) :
    (pattern :: rest).getLast? = some [.anyPath] ↔ rest.getLast? = some [.anyPath] := by
  cases rest with
  | nil =>
    have hne : pattern ≠ [.anyPath] := fun h => by simp [h, isAnyPath_anyPath] at hsingle
    simp [hne]
  | cons next rest => rw [List.getLast?_cons_cons]

theorem reaches_piece_iff {pattern : Pattern} {rest : List Pattern} (hsingle : pattern.isAnyPath = false)
    (hliteral : ∀ p ∈ pattern :: rest, ∀ text, p.literal? = some text → '/' ∉ text) (hpath : path ≠ []) :
    Reaches files foldersOnly (pattern :: rest) path found ↔ ∃ piece, pattern.StandsFor piece ∧
      files.isThere (join path piece) ∧ Reaches files foldersOnly rest (join path piece) found := by
  unfold Reaches
  rw [getLast?_cons_eq_anyPath_iff hsingle]
  constructor
  · rintro ⟨pieces, hdescribes, rfl, hfound, hfolder⟩
    have hslash := hdescribes.no_slash hliteral
    obtain ⟨piece, more, rfl, hstands, hdescribes⟩ := (describes_piece_iff hsingle).mp hdescribes
    obtain ⟨hslash, hslashes⟩ := List.forall_mem_cons.mp hslash
    have hne := join_ne_nil hpath (isAbsolute_eq_false_of_not_mem hslash)
    exact ⟨piece, hstands, Files.isThere_of_isThere_under hne hslashes hfound, more, hdescribes, rfl, hfound, hfolder⟩
  · rintro ⟨piece, hstands, -, more, hdescribes, hfound⟩
    exact ⟨piece :: more, .piece hsingle hstands hdescribes, hfound⟩

theorem reaches_deeper_iff {next : Pattern} {rest : List Pattern} (hnext : next.isAnyPath = false)
    (hliteral : ∀ p ∈ next :: rest, ∀ text, p.literal? = some text → '/' ∉ text) (hpath : path ≠ []) :
    Reaches files foldersOnly ([.anyPath] :: next :: rest) path found ↔
      ∃ names name, (∀ n ∈ names, IsName n) ∧ IsName name ∧ next.fits name ∧
        files.isThere (under path (names ++ [name])) ∧
        Reaches files foldersOnly rest (under path (names ++ [name])) found := by
  have hunder (names more : List (List Char)) (name : List Char) :
      under path (names ++ name :: more) = under (under path (names ++ [name])) more := by
    rw [← under_append, List.append_assoc, List.singleton_append]
  unfold Reaches
  rw [List.getLast?_cons_cons, getLast?_cons_eq_anyPath_iff hnext]
  constructor
  · rintro ⟨pieces, hdescribes, rfl, hfound, hfolder⟩
    obtain ⟨names, name, more, rfl, hnames, hname, hdescribes⟩ := describes_deeper_iff.mp hdescribes
    have hslash := hdescribes.no_slash hliteral
    obtain ⟨piece, pieces, hpieces, hstands, hdescribes⟩ := (describes_piece_iff hnext).mp hdescribes
    obtain ⟨rfl, rfl⟩ := List.cons.inj hpieces
    have hall : ∀ n ∈ names ++ [name], '/' ∉ n := List.forall_mem_append.mpr
      ⟨fun n hn => (hnames n hn).2.2.2, List.forall_mem_singleton.mpr hname.2.2.2⟩
    have hentry : files.isThere (under path (names ++ [name])) :=
      Files.isThere_of_isThere_under (under_ne_nil hpath hall) (List.forall_mem_cons.mp hslash).2
        (hunder names more name ▸ hfound)
    exact ⟨names, name, hnames, hname, hstands.1, hentry, more, hdescribes, hunder names more name, hfound, hfolder⟩
  · rintro ⟨names, name, hnames, hname, hfits, -, more, hdescribes, hfound⟩
    rw [← hunder] at hfound
    exact ⟨_, .deeper hnames hname (.piece hnext ((Pattern.standsFor_name hname).mpr hfits) hdescribes), hfound⟩

/-- Two stars are not followed by two stars. -/
def Collapsed (patterns : List Pattern) : Prop :=
  patterns.IsChain fun p q => ¬ (p.isAnyPath ∧ q.isAnyPath)

theorem exists_collapse_cons (pattern : Pattern) (rest : List Pattern) :
    ∃ first more, collapse (pattern :: rest) = first :: more ∧ first.isAnyPath = pattern.isAnyPath := by
  induction rest generalizing pattern with
  | nil => exact ⟨pattern, [], rfl, rfl⟩
  | cons next rest ih =>
    rw [collapse]
    split_ifs with hboth
    · obtain ⟨first, more, hcollapse, hfirst⟩ := ih next
      rw [Bool.and_eq_true] at hboth
      exact ⟨first, more, hcollapse, by rw [hfirst, hboth.1, hboth.2]⟩
    · exact ⟨pattern, _, rfl, rfl⟩

theorem collapsed_collapse (patterns : List Pattern) : Collapsed (collapse patterns) := by
  fun_induction collapse patterns with
  | case1 => exact .nil
  | case2 pattern => exact .singleton pattern
  | case3 p q rest hboth ih => exact ih
  | case4 p q rest hboth ih =>
    obtain ⟨first, more, hcollapse, hfirst⟩ := exists_collapse_cons q rest
    rw [hcollapse] at ih ⊢
    refine List.isChain_cons_cons.mpr ⟨?_, ih⟩
    rw [hfirst, ← Bool.and_eq_true]
    exact hboth

/-- At the end of a pattern a path gives itself, unless folders are asked for and it is none. -/
theorem mem_expand_nil_iff (hthere : files.isThere path) : found ∈ expand files foldersOnly [] path ↔
    found = path ∧ files.isThere found ∧ (foldersOnly → files.isFolder found) := by
  rw [expand]
  constructor
  · intro hfound
    split_ifs at hfound with hkept
    · obtain rfl := List.mem_singleton.mp hfound
      exact ⟨rfl, hthere, fun hfolders => by simpa [hfolders] using hkept⟩
    · cases hfound
  · rintro ⟨rfl, -, hfolder⟩
    have hkept : (!foldersOnly || files.isFolder found) = true := by
      cases foldersOnly with
      | false => rfl
      | true => simpa using hfolder
    rw [if_pos hkept]
    exact List.mem_singleton_self found

/-- Expanding a pattern gives what it reaches: both go on in the same way after each component. -/
theorem mem_expand_iff (hroot : files.root.WellFormed) : ∀ (patterns : List Pattern) {path : List Char},
    Collapsed patterns → (∀ p ∈ patterns, ∀ text, p.literal? = some text → '/' ∉ text) →
    files.isThere path →
    (found ∈ expand files foldersOnly patterns path ↔ Reaches files foldersOnly patterns path found)
  | [], path, _, _, hthere => (mem_expand_nil_iff hthere).trans reaches_nil_iff.symm
  | pattern :: rest, path, hcollapsed, hliteral, hthere => by
    obtain ⟨tree, hget⟩ := Option.isSome_iff_exists.mp hthere
    have hpath := Files.ne_nil_of_get? hget
    obtain ⟨-, hrest⟩ := List.forall_mem_cons.mp hliteral
    by_cases hany : pattern.isAnyPath
    · obtain rfl := Pattern.isAnyPath_iff.mp hany
      cases rest with
      | nil => rw [mem_expand_folders_iff hroot hget, reaches_folders_iff]
      | cons next rest =>
        have hnext : next.isAnyPath = false := by
          simpa [isAnyPath_anyPath] using (List.isChain_cons_cons.mp hcollapsed).1
        rw [mem_expand_deeper_iff hroot hget, reaches_deeper_iff hnext hrest hpath]
        refine exists_congr fun names => exists_congr fun name => and_congr_right fun _ => and_congr_right fun _ =>
          and_congr_right fun _ => and_congr_right fun hentry => ?_
        exact mem_expand_iff hroot rest hcollapsed.tail.tail (List.forall_mem_cons.mp hrest).2 hentry
    · have hsingle : pattern.isAnyPath = false := by simpa using hany
      rw [mem_expand_piece_iff hroot hget hsingle, reaches_piece_iff hsingle hliteral hpath]
      refine exists_congr fun piece => and_congr_right fun _ => and_congr_right fun hpiece => ?_
      exact mem_expand_iff hroot rest hcollapsed.tail hrest hpiece

/-- Two stars in a row do no harm, and a pattern with a component gives nothing where the path leads nowhere. -/
theorem mem_expand_collapse_iff (hroot : files.root.WellFormed) {patterns : List Pattern} (hne : patterns ≠ [])
    (hliteral : ∀ p ∈ patterns, ∀ text, p.literal? = some text → '/' ∉ text) (hpath : path ≠ []) :
    found ∈ expand files foldersOnly (collapse patterns) path ↔ Reaches files foldersOnly patterns path found := by
  by_cases hthere : files.isThere path
  · rw [mem_expand_iff hroot _ (collapsed_collapse patterns) (fun p hp => hliteral p (mem_of_mem_collapse hp)) hthere]
    simp only [Reaches, describes_collapse_iff, getLast?_collapse]
  · have hnone : files.get? path = none := by simpa [Files.isThere] using hthere
    obtain ⟨p, rest, hcons⟩ := List.exists_cons_of_ne_nil (mt collapse_eq_nil_iff.mp hne)
    rw [hcons, expand]
    simp only [hnone, List.not_mem_nil, false_iff]
    rintro ⟨pieces, hdescribes, rfl, hfound, -⟩
    exact hthere (Files.isThere_of_isThere_under hpath (hdescribes.no_slash hliteral) hfound)

end

end Glob

end ComponentDoc
