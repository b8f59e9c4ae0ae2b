import ComponentDoc.Proofs.Comment.Run
import ComponentDoc.Proofs.Document.Findings

/-!
The order in which features are asked for. Occurrences are put in order of their place, so that the order
of the features counts only among those that start at the same place; and among these only where a comment
stands beside both, which the one that comes first takes.
-/
namespace ComponentDoc

open Text

/-- A comment stands beside the occurrence, free or not. -/
def Comment.Binder.isBeside (binder : Comment.Binder) (o : Occurrence) : Bool :=
  (o.comment binder []).1.isSome

/-- Where no comment stands beside an occurrence, it takes none, whatever is claimed. -/
theorem Occurrence.comment_of_not_isBeside {o : Occurrence} {binder : Comment.Binder}
    (h : ¬ binder.isBeside o) (claimed : List Nat) : o.comment binder claimed = (none, claimed) := by
  have hfree : (o.comment binder []).1 = none := by simpa [Comment.Binder.isBeside] using h
  have hbind : binder.taken [] (.bind o.anchors) = [] := by
    by_contra hn
    simp [comment, Comment.Binder.bind_eq, Comment.Binder.docOf?_of_ne_nil hn] at hfree
  have hnone (claimed : List Nat) : binder.bind claimed o.anchors = (none, claimed) := by
    rw [Comment.Binder.bind_eq, Comment.Binder.taken_eq_nil_of_free hbind]
    rfl
  cases ht : o.trailing with
  | none => simp [comment, hnone, ht]
  | some stop =>
    have htrailing : binder.taken [] (.trailing stop) = [] := by
      simpa [comment, hnone, ht, Comment.Binder.bindTrailing_eq, Comment.Binder.docOf?_eq_none_iff]
        using hfree
    simp only [comment, hnone, ht]
    rw [Comment.Binder.bindTrailing_eq, Comment.Binder.taken_eq_nil_of_free htrailing]
    rfl

section

variable {dialect : Dialect} {binder : Comment.Binder} {locate : Span → Option Location}

/-- The findings of occurrences, given those of the occurrences beside a comment. -/
def fillIn (dialect : Dialect) (binder : Comment.Binder) (locate : Span → Option Location) :
    List Occurrence → List Finding → List Finding
  | [], _ => []
  | o :: os, fs =>
    if binder.isBeside o then
      match fs with
      | [] => []
      | f :: fs => f :: fillIn dialect binder locate os fs
    else o.describe dialect none (locate o.ident) :: fillIn dialect binder locate os fs

theorem findings_eq_fillIn (claimed : List Nat) (os : List Occurrence) :
    findings dialect binder locate claimed os = fillIn dialect binder locate os
      (findings dialect binder locate claimed (os.filter binder.isBeside)) := by
  induction os generalizing claimed with
  | nil => rfl
  | cons o os ih =>
    by_cases h : binder.isBeside o
    · rw [List.filter_cons_of_pos h]
      simp only [findings_cons, fillIn, h, if_true]
      rw [ih]
    · -- It leaves the claims as they are, so that those after it find what they would without it.
      rw [List.filter_cons_of_neg h]
      simp only [findings_cons, Occurrence.comment_of_not_isBeside h, fillIn, h]
      rw [ih]
      rfl

theorem filter_kind_fillIn {os : List Occurrence} {fs : List Finding}
    (h : List.Forall₂ (Finding.IsOf dialect locate) (os.filter binder.isBeside) fs)
    (kind : EntityKind) : (fillIn dialect binder locate os fs).filter (·.kind == kind) =
      fillIn dialect binder locate (os.filter (·.kind == kind)) (fs.filter (·.kind == kind)) := by
  induction os generalizing fs with
  | nil => rfl
  | cons o os ih =>
    by_cases hd : binder.isBeside o
    · rw [List.filter_cons_of_pos hd] at h
      obtain ⟨f, fs, hof, hrest, rfl⟩ := List.forall₂_cons_left_iff.mp h
      by_cases hk : o.kind = kind
      · have hfk : f.kind = kind := hof.kind_eq.trans hk
        simp [fillIn, hd, hk, hfk, ih hrest]
      · have hfk : ¬ f.kind = kind := by rwa [hof.kind_eq]
        simp [fillIn, hd, hk, hfk, ih hrest]
    · rw [List.filter_cons_of_neg hd] at h
      by_cases hk : o.kind = kind
      · have hfk : (o.describe dialect none (locate o.ident)).kind = kind := hk
        simp [fillIn, hd, hk, hfk, ih h]
      · have hfk : ¬ (o.describe dialect none (locate o.ident)).kind = kind := hk
        simp [fillIn, hd, hk, hfk, ih h]

/-- The findings of a kind depend on the order of the occurrences of that kind and on the order of the
occurrences beside a comment, and on nothing else. -/
theorem filter_kind_findings_eq {claimed : List Nat} {xs ys : List Occurrence} {kind : EntityKind}
    (hkind : xs.filter (·.kind == kind) = ys.filter (·.kind == kind))
    (hdoc : xs.filter binder.isBeside = ys.filter binder.isBeside) :
    (findings dialect binder locate claimed xs).filter (·.kind == kind) =
      (findings dialect binder locate claimed ys).filter (·.kind == kind) := by
  rw [findings_eq_fillIn, findings_eq_fillIn claimed ys, filter_kind_fillIn (findings_forall₂ ..),
    filter_kind_fillIn (findings_forall₂ ..), hkind, hdoc]

end

/-- Occurrences of two kinds start at the same place, and a comment stands beside each of them. -/
def Dialect.Contested (dialect : Dialect) (c : Component) (k l : EntityKind) : Prop :=
  ∃ os os', dialect.occurrences c k = .ok os ∧ dialect.occurrences c l = .ok os' ∧
    ∃ o ∈ os, ∃ o' ∈ os', o.ident.start = o'.ident.start ∧
      (c.binder dialect).isBeside o ∧ (c.binder dialect).isBeside o'

/-- The features ask for one kind before another. -/
def Options.ListsBefore (options : Options) (k l : EntityKind) : Prop :=
  options.kinds.idxOf k < options.kinds.idxOf l

instance (options : Options) (k l : EntityKind) : Decidable (options.ListsBefore k l) :=
  inferInstanceAs (Decidable (_ < _))

/-- The same request with the features listed otherwise. -/
def Options.relisted (options : Options) (features : List Feature) : Options :=
  { options with features := features }

/-- The occurrences of a kind beside a comment. -/
def Dialect.documented (dialect : Dialect) (c : Component) (kind : EntityKind) : List Occurrence :=
  ((dialect.occurrences c kind).toOption.getD []).filter (c.binder dialect).isBeside

theorem Dialect.mem_documented {dialect : Dialect} {c : Component} {kind : EntityKind} {o : Occurrence} :
    o ∈ dialect.documented c kind ↔
      ∃ os, dialect.occurrences c kind = .ok os ∧ o ∈ os ∧ (c.binder dialect).isBeside o := by
  unfold documented
  cases dialect.occurrences c kind with
  | error e => simp [Except.toOption]
  | ok os => simp [Except.toOption]

theorem filter_isBeside_flatten {dialect : Dialect} {c : Component} {kinds : List EntityKind}
    {oss : List (List Occurrence)} (h : kinds.mapM (dialect.occurrences c) = .ok oss) :
    oss.flatten.filter (c.binder dialect).isBeside = kinds.flatMap (dialect.documented c) := by
  have hall := mapM_eq_ok_iff.mp h
  clear h
  induction hall with
  | nil => rfl
  | cons ho _ ih =>
    rw [List.flatten_cons, List.filter_append, ih, List.flatMap_cons, Dialect.documented, ho]
    rfl

section

variable {options : Options} {features : List Feature}
  (hf : ∀ f, f ∈ features ↔ f ∈ options.features)
include hf

theorem Options.mem_kinds_relisted (kind : EntityKind) :
    kind ∈ (options.relisted features).kinds ↔ kind ∈ options.kinds := by
  simp only [mem_kinds, relisted, hf]

theorem Options.contains_relisted (f : Feature) :
    (options.relisted features).features.contains f = options.features.contains f := by
  rw [Bool.eq_iff_iff]
  simp only [List.contains_iff_mem]
  exact hf f

theorem Options.description_relisted (c : Component) (dialect : Dialect) :
    (options.relisted features).description c dialect = options.description c dialect := by
  unfold description
  rw [contains_relisted hf]

/-- All kinds can be listed in one order if they can be in another. -/
theorem exists_mapM_occurrences_relisted {c : Component} {dialect : Dialect}
    {oss : List (List Occurrence)} (h : options.kinds.mapM (dialect.occurrences c) = .ok oss) :
    ∃ oss', (options.relisted features).kinds.mapM (dialect.occurrences c) = .ok oss' := by
  rw [exists_mapM_eq_ok_iff]
  intro kind hk
  exact exists_mapM_eq_ok_iff.mp ⟨oss, h⟩ kind ((Options.mem_kinds_relisted hf kind).mp hk)

theorem findings_relisted {c : Component} {dialect : Dialect} {found : List Finding}
    (h : c.findings options dialect = .ok found) :
    ∃ found', c.findings (options.relisted features) dialect = .ok found' ∧
      ((∀ k l, dialect.Contested c k l →
        (options.ListsBefore k l ↔ (options.relisted features).ListsBefore k l)) →
        ∀ kind ∈ options.kinds, found'.filter (·.kind == kind) = found.filter (·.kind == kind)) := by
  obtain ⟨oss, ho, h⟩ := bind_eq_ok_iff.mp h
  obtain ⟨oss', ho'⟩ := exists_mapM_occurrences_relisted hf ho
  refine ⟨_, bind_eq_ok_iff.mpr ⟨oss', ho', rfl⟩, fun horder kind hk => ?_⟩
  obtain rfl := Except.ok.inj h
  rw [Options.description_relisted hf]
  refine filter_kind_findings_eq ?_ ?_
  · have hk' := (Options.mem_kinds_relisted hf kind).mpr hk
    have hos := filter_kind_flatten (mapM_eq_ok_iff.mp ho) (nodup_eraseDups _) hk
    have hos' := filter_kind_flatten (mapM_eq_ok_iff.mp ho') (nodup_eraseDups _) hk'
    rw [filter_sortOccurrences, filter_sortOccurrences, Except.ok.inj (hos'.symm.trans hos)]
  · -- Kinds that meet where no comment stands are sorted out before, and need not be in order.
    rw [filter_sortOccurrences, filter_sortOccurrences, filter_isBeside_flatten ho,
      filter_isBeside_flatten ho']
    refine (mergeSort_flatMap_eq (fun o : Occurrence => o.ident.start) _ (nodup_eraseDups _)
      (nodup_eraseDups _) (fun k => (Options.mem_kinds_relisted hf k).symm) ?_).symm
    rintro k l ⟨o, hm, o', hm', hs⟩
    obtain ⟨os, hos, ho, hb⟩ := Dialect.mem_documented.mp hm
    obtain ⟨os', hos', ho', hb'⟩ := Dialect.mem_documented.mp hm'
    exact horder k l ⟨os, os', hos, hos', o, ho, o', ho', hs, hb, hb'⟩

end

/-- Features that are asked for in another order, or more than once, never make a request fail, and they
change nothing but the entities; and these neither, if kinds that contend for a comment are asked for in
the same order. -/
theorem extract_relisted (c : Component) (options : Options) (features : List Feature)
    (hf : ∀ f, f ∈ features ↔ f ∈ options.features) (doc : Document)
    (h : extract c options = .ok doc) :
    ∃ doc', extract c (options.relisted features) = .ok doc' ∧ doc'.version = doc.version ∧
      doc'.name = doc.name ∧ doc'.description = doc.description ∧
      ((∀ dialect, options.dialect c = .ok dialect → ∀ k l, dialect.Contested c k l →
        (options.ListsBefore k l ↔ (options.relisted features).ListsBefore k l)) → doc' = doc) := by
  obtain ⟨dialect, hd, h⟩ := bind_eq_ok_iff.mp h
  obtain ⟨found, hfound, h⟩ := bind_eq_ok_iff.mp h
  obtain rfl := Except.ok.inj h
  obtain ⟨found', hfound', hsame⟩ := findings_relisted hf hfound
  refine ⟨_, bind_eq_ok_iff.mpr ⟨dialect, hd, bind_eq_ok_iff.mpr ⟨found', hfound', rfl⟩⟩, rfl, ?_, ?_, ?_⟩
  · simp only [Options.contains_relisted hf]
  · simp only [Options.description_relisted hf]
  · intro horder
    simp only [Options.contains_relisted hf, Options.description_relisted hf, Document.mk.injEq, true_and]
    funext kind
    have hmem := Options.mem_kinds_relisted hf kind
    by_cases hk : kind ∈ options.kinds
    · rw [Options.entities_of_mem hk, Options.entities_of_mem (hmem.mpr hk),
        hsame (horder dialect hd) kind hk]
      rfl
    · rw [Options.entities_of_not_mem hk, Options.entities_of_not_mem (fun h => hk (hmem.mp h))]

/-- A component of the second version whose data and methods are one object, with one member that has a
comment. -/
def shared : Component where
  name := none
  source := "<script>let o=\x7b/**d*/f()\x7b\x7d\x7d;export default\x7bdata:o,methods:o\x7d</script>".toList
  markup := List.replicate 69 ' '
  scripts := [
    { isModule := false
      isTypeScript := false
      offset := 8
      items := [
        ⟨0, .statement (.declaration (.vars 0 false [.mk ⟨4, 19⟩ (.ident ⟨"o", ⟨4, 5⟩⟩ [])
          (some (.object 6 [.method ⟨13, 18⟩ (.name ⟨"f", ⟨13, 14⟩⟩) (.mk [] (.block []) [])]))]))⟩,
        ⟨20, .exportDefault (.object 34 [
          .keyValue ⟨35, 41⟩ (.name ⟨"data", ⟨35, 39⟩⟩) (.ident ⟨"o", ⟨40, 41⟩⟩),
          .keyValue ⟨42, 51⟩ (.name ⟨"methods", ⟨42, 49⟩⟩) (.ident ⟨"o", ⟨50, 51⟩⟩)])⟩]
      comments := [⟨.block, ⟨15, 21⟩, "*d".toList⟩] }]
  markupComments := []

def Document.descriptions (doc : Document) (kind : EntityKind) : List (Option String) :=
  (doc.entities kind).map Entity.description

theorem contested_shared : Dialect.v2.Contested shared .data .method :=
  ⟨_, _, rfl, rfl, _, List.mem_cons_self, _, List.mem_cons_self, rfl, by cbv, by cbv⟩

/-- Data and methods contend for a comment. Events may be asked for before them or between them. -/
theorem extract_relisted_shared :
    Dialect.v2.Contested shared .data .method ∧
    ∃ doc, extract shared { features := [.data, .events, .methods] } = .ok doc ∧
      doc.descriptions .data = [some "d"] ∧ doc.descriptions .method = [none] ∧
      extract shared { features := [.events, .data, .methods, .data] } = .ok doc := by
  have hdoc : ∃ doc, extract shared { features := [.data, .events, .methods] } = .ok doc ∧
      doc.descriptions .data = [some "d"] ∧ doc.descriptions .method = [none] :=
    ⟨_, rfl, by cbv, by cbv⟩
  obtain ⟨doc, h, hdata, hmethods⟩ := hdoc
  have hevents {k : EntityKind} {os : List Occurrence} {o : Occurrence}
      (hos : Dialect.v2.occurrences shared k = .ok os) (ho : o ∈ os) : k ≠ .event := by
    rintro rfl
    obtain rfl : [] = os := Except.ok.inj hos
    cases ho
  obtain ⟨doc', h', _, _, _, hsame⟩ := extract_relisted shared { features := [.data, .events, .methods] }
    [.events, .data, .methods, .data] (fun f => by cases f <;> decide) doc h
  have hcondition : ∀ dialect, Options.dialect { features := [.data, .events, .methods] } shared =
      .ok dialect → ∀ k l, dialect.Contested shared k l →
        (Options.ListsBefore { features := [.data, .events, .methods] } k l ↔
          Options.ListsBefore { features := [.events, .data, .methods, .data] } k l) := by
    rintro dialect hd k l ⟨os, os', hos, hos', o, ho, o', ho', _⟩
    obtain rfl : Dialect.v2 = dialect := Except.ok.inj hd
    have hk := hevents hos ho
    have hl := hevents hos' ho'
    cases k <;> cases l <;> first | contradiction | decide
  rw [hsame hcondition] at h'
  exact ⟨contested_shared, doc, h, hdata, hmethods, h'⟩

/-- The comment goes to the section that is asked for first. -/
theorem listing_order_moves_comment :
    ¬ ∀ (c : Component) (options : Options) (features : List Feature) (doc : Document),
      (∀ f, f ∈ features ↔ f ∈ options.features) → extract c options = .ok doc →
        extract c (options.relisted features) = .ok doc := by
  intro hall
  have hdoc : ∃ doc, extract shared { features := [.data, .methods] } = .ok doc ∧
      doc.descriptions .data = [some "d"] := ⟨_, rfl, by cbv⟩
  have hdoc' : ∃ doc, extract shared { features := [.methods, .data] } = .ok doc ∧
      doc.descriptions .data = [none] := ⟨_, rfl, by cbv⟩
  obtain ⟨doc, h, hdata⟩ := hdoc
  obtain ⟨doc', h', hdata'⟩ := hdoc'
  have hsame := hall shared { features := [.data, .methods] } [.methods, .data] doc
    (fun f => by cases f <;> decide) h
  obtain rfl : doc = doc' := Except.ok.inj (hsame.symm.trans h')
  rw [hdata] at hdata'
  cases hdata'

end ComponentDoc
