import ComponentDoc.Proofs.Document.Conservation
import ComponentDoc.Proofs.Shift.Comment

namespace ComponentDoc

open Text

def Location.shift (l : Location) (m : Nat) : Location :=
  ⟨m + l.start, m + l.stop⟩

/-- The document with the places of every entity changed. -/
def Document.mapPlaces (change : Option (List Location) → Option (List Location)) (doc : Document) :
    Document :=
  { doc with
    entities := fun kind => (doc.entities kind).map fun e => { e with locations := change e.locations } }

/-- The document with every place so many characters further on. -/
def Document.shift (doc : Document) (m : Nat) : Document :=
  doc.mapPlaces (Option.map (List.map (·.shift m)))

variable {lead : List Char}

theorem findings_behind {dialect : Dialect} {binder : Comment.Binder}
    {locate locate' : Span → Option Location} {moved : Option Location → Option Location}
    (claimed : List Nat) {os : List Occurrence}
    (hl : ∀ o ∈ os, locate' (o.ident.shift (byteLength lead)) = moved (locate o.ident)) :
    findings dialect (binder.behind lead) locate' (claimed.map (byteLength lead + ·))
      (os.map (·.shift (byteLength lead))) =
      (findings dialect binder locate claimed os).map
        (Finding.relocate (fun f => byteLength lead + f.position) fun f => moved f.location) := by
  induction os generalizing claimed with
  | nil => rfl
  | cons o os ih =>
    rw [List.map_cons, findings_cons, findings_cons, Occurrence.comment_behind, List.map_cons]
    refine congrArg₂ List.cons ?_ (ih _ fun p hp => hl p (List.mem_cons_of_mem _ hp))
    change (o.shift _).describe dialect _ (locate' (o.ident.shift (byteLength lead))) = _
    rw [hl o List.mem_cons_self]
    rfl

theorem sortOccurrences_shift (n : Nat) (os : List Occurrence) :
    sortOccurrences (os.map (·.shift n)) = (sortOccurrences os).map (·.shift n) := by
  refine (List.map_mergeSort fun a _ b _ => ?_).symm
  rw [Bool.eq_iff_iff]
  simp [Occurrence.shift, Span.shift]

theorem Options.dialect_behind (hlead : ∀ c ∈ lead, isBlank c) (options : Options) (c : Component) :
    options.dialect (c.behind lead) = options.dialect c := by
  unfold dialect
  rw [Dialect.detect_behind hlead]

section

variable (hlead : ∀ c ∈ lead, isBlank c) {c : Component} (hpos : ∀ script ∈ c.scripts, 0 < script.offset)
include hlead hpos

theorem mapM_occurrences_behind (kinds : List EntityKind) (dialect : Dialect) :
    kinds.mapM (dialect.occurrences (c.behind lead)) =
      (kinds.mapM (dialect.occurrences c)).map (List.map (List.map (·.shift (byteLength lead)))) :=
  mapM_eq_map fun kind _ => dialect.occurrences_behind hlead hpos kind

theorem Component.findings_behind {options : Options} {dialect : Dialect}
    {moved : Option Location → Option Location}
    (hl : ∀ kind ∈ options.kinds, ∀ os, dialect.occurrences c kind = .ok os → ∀ o ∈ os,
      options.locate (c.behind lead) (o.ident.shift (byteLength lead)) =
        moved (options.locate c o.ident)) :
    (c.behind lead).findings options dialect = (c.findings options dialect).map (List.map
      (Finding.relocate (fun f => byteLength lead + f.position) fun f => moved f.location)) := by
  unfold findings
  rw [mapM_occurrences_behind hlead hpos, Options.description_behind, binder_behind]
  cases hoss : options.kinds.mapM (dialect.occurrences c) with
  | error e => rfl
  | ok oss =>
    refine congrArg Except.ok ?_
    rw [← List.map_flatten, sortOccurrences_shift]
    refine ComponentDoc.findings_behind _ fun o ho => ?_
    obtain ⟨os, hos, hm⟩ := List.mem_flatten.mp ((sortOccurrences_perm _).mem_iff.mp ho)
    obtain ⟨kind, hk, hoc⟩ := mem_of_forall₂ (mapM_eq_ok_iff.mp hoss) hos
    exact hl kind hk os hoc o hm

theorem extract_behind {options : Options} (moved : Option Location → Option Location)
    (change : Option (List Location) → Option (List Location))
    (hl : ∀ dialect, options.dialect c = .ok dialect → ∀ kind ∈ options.kinds, ∀ os,
      dialect.occurrences c kind = .ok os → ∀ o ∈ os,
        options.locate (c.behind lead) (o.ident.shift (byteLength lead)) =
          moved (options.locate c o.ident))
    (hchange : ∀ group : List Finding,
      (if options.withLocations then some (group.filterMap fun f => moved f.location) else none) =
        change (if options.withLocations then some (group.filterMap Finding.location) else none)) :
    extract (c.behind lead) options = (extract c options).map (Document.mapPlaces change) := by
  have hentities (found : List Finding) (kind : EntityKind) : options.entities (found.map
      (Finding.relocate (fun f => byteLength lead + f.position) fun f => moved f.location)) kind =
      (options.entities found kind).map fun e => { e with locations := change e.locations } := by
    by_cases hk : kind ∈ options.kinds
    · rw [Options.entities_of_mem hk, Options.entities_of_mem hk, List.filter_map]
      exact Finding.assemble_relocate (fun a b => Nat.add_le_add_iff_left) hchange _ _
    · rw [Options.entities_of_not_mem hk, Options.entities_of_not_mem hk]
      rfl
  unfold extract
  rw [Options.dialect_behind hlead]
  cases hd : options.dialect c with
  | error e => rfl
  | ok dialect =>
    change ((c.behind lead).findings options dialect >>= _) = (c.findings options dialect >>= _).map _
    rw [Component.findings_behind hlead hpos (hl dialect hd)]
    cases c.findings options dialect with
    | error e => rfl
    | ok found =>
      simp only [Except.map, bind, Except.bind, pure, Except.pure, Document.mapPlaces,
        Options.description_behind]
      congr 2
      funext kind
      exact hentities found kind

end

theorem locate_append_iff {cs : List Char} {span : Span} :
    locate (lead ++ cs) (span.shift (byteLength lead)) = (locate cs span).shift lead.length ↔
      isAscii lead ∨ (OnBoundary cs span.start ∧ OnBoundary cs span.stop) := by
  rw [or_and_left, ← charOffset_append_iff, ← charOffset_append_iff]
  simp [locate, Span.shift, Location.shift]

/-- Every name that is asked for starts and ends on a character boundary of the file. -/
def Component.OnBoundaries (c : Component) (options : Options) : Prop :=
  ∀ dialect, options.dialect c = .ok dialect → ∀ kind ∈ options.kinds, ∀ os,
    dialect.occurrences c kind = .ok os → ∀ o ∈ os,
      OnBoundary c.source o.ident.start ∧ OnBoundary c.source o.ident.stop

theorem sum_places_shift (doc : Document) (m : Nat) (kind : EntityKind) (measure : Location → Nat) :
    (((doc.shift m).entities kind).map fun e => ((e.locations.getD []).map measure).sum).sum =
      ((doc.entities kind).map fun e =>
        ((e.locations.getD []).map fun l => measure (l.shift m)).sum).sum := by
  simp only [Document.shift, Document.mapPlaces, List.map_map]
  refine congrArg List.sum (congrArg (List.map · _) (funext fun e => ?_))
  cases h : e.locations with
  | none => simp [h]
  | some places => simp [h, Function.comp_def]

section

variable (hlead : ∀ c ∈ lead, isBlank c) {c : Component} (hpos : ∀ script ∈ c.scripts, 0 < script.offset)
  {options : Options}
include hlead hpos

/-- Without places, leading blanks change nothing. -/
theorem extract_behind_of_not_withLocations (hw : options.withLocations = false) :
    extract (c.behind lead) options = extract c options := by
  have hlocate (c : Component) (span : Span) : options.locate c span = none := by
    simp [Options.locate, hw]
  rw [extract_behind hlead hpos id id (fun _ _ _ _ _ _ o _ => by simp only [hlocate, id_eq])
    fun group => by simp only [id_eq]]
  cases extract c options with
  | error e => rfl
  | ok doc => simp [Except.map, Document.mapPlaces]

/-- With blanks that are ASCII, or names on boundaries, every place is so many characters further on. -/
theorem extract_behind_of_onBoundaries (hb : isAscii lead ∨ c.OnBoundaries options) :
    extract (c.behind lead) options = (extract c options).map (·.shift lead.length) := by
  refine extract_behind hlead hpos (Option.map (·.shift lead.length)) _ ?_ ?_
  · intro dialect hd kind hk os hos o ho
    have hplace : locate (lead ++ c.source) (o.ident.shift (byteLength lead)) =
        (locate c.source o.ident).shift lead.length :=
      locate_append_iff.mpr (hb.imp_right fun hc => hc dialect hd kind hk os hos o ho)
    unfold Options.locate
    split_ifs
    · exact congrArg some hplace
    · rfl
  · intro group
    split_ifs
    · rw [Option.map_some, List.map_filterMap]
    · rfl

/-- Where a section is listed whole, with every place so many characters further on, the blanks are ASCII
or its names are on boundaries. -/
theorem onBoundaries_of_extract_behind (hi : options.ignoredVisibilities = [])
    (hw : options.withLocations = true) {doc : Document} (h : extract c options = .ok doc)
    (h' : extract (c.behind lead) options = .ok (doc.shift lead.length)) :
    isAscii lead ∨ c.OnBoundaries options := by
  by_cases ha : isAscii lead
  · exact Or.inl ha
  · refine Or.inr fun dialect hd kind hk os hos o ho => ?_
    obtain ⟨os₁, ids, hos₁, hc⟩ := conserves_of_mem_kinds hi hw h hd hk
    obtain rfl := Except.ok.inj (hos.symm.trans hos₁)
    have hd' : options.dialect (c.behind lead) = .ok dialect := by rwa [Options.dialect_behind hlead]
    obtain ⟨os₂, ids', hos₂, hc'⟩ := conserves_of_mem_kinds hi hw h' hd' hk
    rw [dialect.occurrences_behind hlead hpos, hos] at hos₂
    obtain rfl := Except.ok.inj hos₂
    have hsum (measure : Location → Nat) :
        (os.map fun o => measure (locate (lead ++ c.source) (o.ident.shift (byteLength lead)))).sum =
          (os.map fun o => measure ((locate c.source o.ident).shift lead.length)).sum := by
      have hshift := hc'.sum_places measure
      rw [sum_places_shift, hc.sum_places, List.map_map] at hshift
      exact hshift.symm
    -- No place moves by less than the characters of the blanks, so with equal sums none moves by more.
    have hstart := eq_of_sum_map_eq (fun p _ => le_charOffset_append ..) (hsum Location.start) ho
    have hstop := eq_of_sum_map_eq (fun p _ => le_charOffset_append ..) (hsum Location.stop) ho
    exact ⟨(charOffset_append_iff.mp hstart.symm).resolve_left ha,
      (charOffset_append_iff.mp hstop.symm).resolve_left ha⟩

theorem exists_extract_behind {doc : Document} (h : extract c options = .ok doc) :
    ∃ doc', extract (c.behind lead) options = .ok doc' := by
  obtain ⟨dialect, oss, hd, ho⟩ := exists_extract_eq_ok_iff.mp ⟨doc, h⟩
  refine exists_extract_eq_ok_iff.mpr
    ⟨dialect, oss.map (List.map (·.shift (byteLength lead))), ?_, ?_⟩
  · rwa [Options.dialect_behind hlead]
  · rw [mapM_occurrences_behind hlead hpos, ho]
    rfl

end

/-- Leading blanks leave the document of a file as it is but for its places. All places are as many
characters further on as there are blanks if the blanks are ASCII or every name starts and ends on a
character boundary, and where nothing is ignored only then. -/
theorem extract_behind_blanks (lead : List Char) {source : List Char} {path : Option String} {c : Component}
    {options : Options} {doc : Document} (hlead : ∀ ch ∈ lead, isBlank ch)
    (hparse : Component.parse source path = .ok c) (hw : options.withLocations = true)
    (h : extract c options = .ok doc) :
    ∃ c' doc', Component.parse (lead ++ source) path = .ok c' ∧ extract c' options = .ok doc' ∧
      extract c' { options with withLocations := false } =
        extract c { options with withLocations := false } ∧
      (isAscii lead ∨ c.OnBoundaries options → doc' = doc.shift lead.length) ∧
      (options.ignoredVisibilities = [] → doc' = doc.shift lead.length →
        isAscii lead ∨ c.OnBoundaries options) := by
  have hpos : ∀ script ∈ c.scripts, 0 < script.offset := fun s hs => Component.offset_pos_of_parse hparse hs
  obtain ⟨doc', h'⟩ := exists_extract_behind hlead hpos h
  refine ⟨c.behind lead, doc', Component.parse_behind hlead hparse, h',
    extract_behind_of_not_withLocations hlead hpos rfl, ?_, ?_⟩
  · intro hb
    have hshift := extract_behind_of_onBoundaries hlead hpos hb
    rw [h, h'] at hshift
    exact Except.ok.inj hshift
  · rintro hi rfl
    exact onBoundaries_of_extract_behind hlead hpos hi hw h h'

def accentedSource : List Char :=
  "<script>let a='é',b</script>".toList

def markedSource : List Char :=
  "<script>\uFEFFlet a='é',b</script>".toList

/-- What both scripts say; the offsets do not count the mark. -/
def accentedScript : ScriptBlock where
  isModule := false
  isTypeScript := false
  offset := 8
  items := [⟨0, .statement (.declaration (.vars 0 false
    [.mk ⟨4, 10⟩ (.ident ⟨"a", ⟨4, 5⟩⟩ []) (some (.string ⟨.text "é", ⟨6, 10⟩⟩)),
     .mk ⟨11, 12⟩ (.ident ⟨"b", ⟨11, 12⟩⟩ []) none]))⟩]
  comments := []

def accented : Component where
  name := none
  source := accentedSource
  markup := List.replicate 29 ' '
  scripts := [accentedScript]
  markupComments := []

def marked : Component where
  name := none
  source := markedSource
  markup := List.replicate 32 ' '
  scripts := [accentedScript]
  markupComments := []

set_option maxRecDepth 4096 in
theorem read_accentedScript :
    ScriptBlock.read "let a='é',b".toList 8 false false = .ok accentedScript := by
  cbv

/-- A mark before a script is not read. -/
theorem ScriptBlock.read_mark {text : List Char} (h : Script.stripMark text = text) (offset : Nat)
    (isModule isTypeScript : Bool) :
    read ('\uFEFF' :: text) offset isModule isTypeScript = read text offset isModule isTypeScript := by
  have hread : Script.readItems isTypeScript ('\uFEFF' :: text) = Script.readItems isTypeScript text := by
    unfold Script.readItems
    rw [h]
    rfl
  unfold read Script.parse
  rw [hread]

theorem parse_accentedSource : Component.parse accentedSource none = .ok accented := by
  have hblocks : Component.liveBlocks "script".toList accentedSource =
      [⟨⟨0, 29⟩, [], "let a='é',b".toList, 8⟩] := by cbv
  unfold Component.parse
  rw [hblocks]
  refine bind_eq_ok_iff.mpr ⟨[accentedScript], ?_, by cbv⟩
  exact bind_eq_ok_iff.mpr ⟨_, read_accentedScript, rfl⟩

theorem parse_markedSource : Component.parse markedSource none = .ok marked := by
  have hblocks : Component.liveBlocks "script".toList markedSource =
      [⟨⟨0, 32⟩, [], '\uFEFF' :: "let a='é',b".toList, 8⟩] := by cbv
  unfold Component.parse
  rw [hblocks]
  refine bind_eq_ok_iff.mpr ⟨[accentedScript], ?_, by cbv⟩
  exact bind_eq_ok_iff.mpr ⟨_, (ScriptBlock.read_mark rfl ..).trans read_accentedScript, rfl⟩

/-- All variables, with their places. -/
def placedData : Options :=
  { features := [.data], ignoredVisibilities := [], withLocations := true }

def Document.places (doc : Document) (kind : EntityKind) : List (List Location) :=
  (doc.entities kind).map fun e => e.locations.getD []

theorem onBoundaries_accented : accented.OnBoundaries placedData := by
  intro dialect hd kind hk os hos o ho
  obtain rfl : Dialect.v3 = dialect := Except.ok.inj hd
  obtain rfl : kind = .data := by simpa [placedData, Options.kinds, Feature.kind?] using hk
  have hidents : (Dialect.v3.occurrences accented .data).map (List.map Occurrence.ident) =
      .ok [⟨12, 13⟩, ⟨19, 20⟩] := by decide
  rw [hos] at hidents
  have hm : o.ident ∈ [⟨12, 13⟩, ⟨19, 20⟩] := Except.ok.inj hidents ▸ List.mem_map_of_mem ho
  rw [onBoundary_iff_isSome, onBoundary_iff_isSome]
  revert hm
  generalize o.ident = span
  intro hm
  rcases List.mem_cons.mp hm with rfl | hm
  · decide
  · obtain rfl := List.mem_singleton.mp hm
    decide

theorem isBlank_ideographicSpace : ∀ ch ∈ ['\u3000'], isBlank ch :=
  List.forall_mem_singleton.mpr rfl

/-- An ideographic space takes three bytes and is one character. -/
theorem extract_behind_blanks_accented :
    Component.parse accentedSource none = .ok accented ∧ ∃ doc, extract accented placedData = .ok doc ∧
      doc.places .data = [[⟨12, 13⟩], [⟨18, 19⟩]] ∧
      ∃ c', Component.parse ('\u3000' :: accentedSource) none = .ok c' ∧
        extract c' placedData = .ok (doc.shift 1) := by
  have hdoc : ∃ doc, extract accented placedData = .ok doc ∧
      doc.places .data = [[⟨12, 13⟩], [⟨18, 19⟩]] := ⟨_, rfl, by cbv⟩
  obtain ⟨doc, h, hplaces⟩ := hdoc
  obtain ⟨c', doc', hparse, h', _, hshift, _⟩ := extract_behind_blanks ['\u3000']
    isBlank_ideographicSpace parse_accentedSource rfl h
  rw [hshift (Or.inr onBoundaries_accented)] at h'
  exact ⟨parse_accentedSource, doc, h, hplaces, c', hparse, h'⟩

/-- Behind a mark the offsets of a script miss the boundaries, and the blank moves a place on by its
bytes. -/
theorem places_behind_mark_differ :
    ¬ ∀ source lead path c c' options doc doc', (∀ ch ∈ lead, isBlank ch) →
      options.withLocations = true → Component.parse source path = .ok c →
      extract c options = .ok doc → Component.parse (lead ++ source) path = .ok c' →
      extract c' options = .ok doc' → doc' = doc.shift lead.length := by
  intro hall
  have hdoc : ∃ doc, extract marked placedData = .ok doc ∧
      (doc.shift 1).places .data = [[⟨11, 12⟩], [⟨20, 18⟩]] := ⟨_, rfl, by cbv⟩
  have hdoc' : ∃ doc, extract (marked.behind ['\u3000']) placedData = .ok doc ∧
      doc.places .data = [[⟨11, 12⟩], [⟨22, 18⟩]] := ⟨_, rfl, by cbv⟩
  obtain ⟨doc, h, hplaces⟩ := hdoc
  obtain ⟨doc', h', hplaces'⟩ := hdoc'
  have heq := hall markedSource ['\u3000'] none marked _ placedData doc doc' isBlank_ideographicSpace rfl
    parse_markedSource h (Component.parse_behind isBlank_ideographicSpace parse_markedSource) h'
  rw [heq, List.length_singleton, hplaces] at hplaces'
  exact absurd hplaces' (by decide)

end ComponentDoc
