import ComponentDoc.Extract
import ComponentDoc.Proofs.Binding.Linked
import ComponentDoc.Proofs.Sorting

/-!
From occurrences to findings. Comments, types and places are added to the occurrences of all kinds in one
pass over the file, but the findings of one kind are those of the occurrences of that kind alone, in order
of their place.
-/
namespace ComponentDoc

open Text

theorem Options.mem_kinds {options : Options} {kind : EntityKind} :
    kind ∈ options.kinds ↔ ∃ f ∈ options.features, f.kind? = some kind := by
  rw [kinds, List.mem_eraseDups, List.mem_filterMap]

theorem Options.entities_of_mem {options : Options} {found : List Finding} {kind : EntityKind}
    (hk : kind ∈ options.kinds) : options.entities found kind =
      Finding.assemble options.ignoredVisibilities options.withLocations
        (found.filter (·.kind == kind)) := by
  simp [entities, hk]

theorem Options.entities_of_not_mem {options : Options} {found : List Finding} {kind : EntityKind}
    (hk : kind ∉ options.kinds) : options.entities found kind = [] := by
  simp [entities, hk]

/-- What a document is made of. -/
theorem extract_eq_ok {c : Component} {options : Options} {doc : Document}
    (h : extract c options = .ok doc) : ∃ dialect found, options.dialect c = .ok dialect ∧
      c.findings options dialect = .ok found ∧ doc.entities = options.entities found := by
  obtain ⟨dialect, hd, h⟩ := bind_eq_ok_iff.mp h
  obtain ⟨found, hf, h⟩ := bind_eq_ok_iff.mp h
  obtain rfl := Except.ok.inj h
  exact ⟨dialect, found, hd, hf, rfl⟩

/-- There is a document just when the dialect is known and all kinds asked for can be listed. -/
theorem exists_extract_eq_ok_iff {c : Component} {options : Options} :
    (∃ doc, extract c options = .ok doc) ↔ ∃ dialect oss, options.dialect c = .ok dialect ∧
      options.kinds.mapM (dialect.occurrences c) = .ok oss := by
  constructor
  · rintro ⟨doc, h⟩
    obtain ⟨dialect, hd, h⟩ := bind_eq_ok_iff.mp h
    obtain ⟨found, hf, _⟩ := bind_eq_ok_iff.mp h
    obtain ⟨oss, ho, _⟩ := bind_eq_ok_iff.mp hf
    exact ⟨dialect, oss, hd, ho⟩
  · rintro ⟨dialect, oss, hd, ho⟩
    exact ⟨_, bind_eq_ok_iff.mpr ⟨dialect, hd, bind_eq_ok_iff.mpr
      ⟨_, bind_eq_ok_iff.mpr ⟨oss, ho, rfl⟩, rfl⟩⟩⟩

theorem sortOccurrences_perm (os : List Occurrence) : (sortOccurrences os).Perm os :=
  List.mergeSort_perm os _

theorem sortOccurrences_pairwise (os : List Occurrence) :
    (sortOccurrences os).Pairwise fun a b => a.ident.start ≤ b.ident.start :=
  pairwise_mergeSort_ble (fun o : Occurrence => o.ident.start) os

theorem exists_head?_sortOccurrences {os : List Occurrence} (h : os ≠ []) :
    ∃ o, (sortOccurrences os).head? = some o := by
  obtain ⟨o, rest, hsort⟩ := exists_mergeSort_eq_cons _ h
  exact ⟨o, List.head?_eq_some_iff.mpr ⟨rest, hsort⟩⟩

theorem filter_sortOccurrences (p : Occurrence → Bool) (os : List Occurrence) :
    (sortOccurrences os).filter p = sortOccurrences (os.filter p) :=
  filter_mergeSort_ble (fun o : Occurrence => o.ident.start) p os

theorem filter_kind_of_forall {os : List Occurrence} {k : EntityKind} (h : ∀ o ∈ os, o.kind = k)
    (kind : EntityKind) : os.filter (·.kind == kind) = if k = kind then os else [] := by
  split_ifs with hk
  · rw [List.filter_eq_self]
    intro o ho
    simp [h o ho, hk]
  · rw [List.filter_eq_nil_iff]
    intro o ho
    simp [h o ho, hk]

/-- Among the occurrences of several kinds, those of one kind are the ones listed for it. -/
theorem filter_kind_flatten {dialect : Dialect} {c : Component} {kinds : List EntityKind}
    {oss : List (List Occurrence)}
    (h : List.Forall₂ (fun k os => dialect.occurrences c k = .ok os) kinds oss) (hn : kinds.Nodup)
    {kind : EntityKind} (hk : kind ∈ kinds) :
    dialect.occurrences c kind = .ok (oss.flatten.filter (·.kind == kind)) := by
  have hother {ks : List EntityKind} {oss : List (List Occurrence)}
      (h : List.Forall₂ (fun k os => dialect.occurrences c k = .ok os) ks oss) (hk : kind ∉ ks) :
      oss.flatten.filter (·.kind == kind) = [] := by
    rw [List.filter_eq_nil_iff]
    intro o ho
    obtain ⟨os, hos, hm⟩ := List.mem_flatten.mp ho
    obtain ⟨k, hks, hoc⟩ := mem_of_forall₂ h hos
    rw [(Dialect.occurrences_linked hoc).1 o hm]
    simpa using ne_of_mem_of_not_mem hks hk
  induction h with
  | nil => simp at hk
  | @cons k os ks oss ho hrest ih =>
    obtain ⟨hnot, hn⟩ := List.nodup_cons.mp hn
    rw [List.flatten_cons, List.filter_append,
      filter_kind_of_forall (Dialect.occurrences_linked ho).1]
    rcases List.mem_cons.mp hk with rfl | hm
    · rw [if_pos rfl, hother hrest hnot, List.append_nil]
      exact ho
    · rw [if_neg (ne_of_mem_of_not_mem hm hnot).symm, List.nil_append]
      exact ih hn hm

/-- A finding is an occurrence with a comment, and with its place. -/
def Finding.IsOf (dialect : Dialect) (locate : Span → Option Location) (o : Occurrence) (f : Finding) :
    Prop :=
  f = o.describe dialect f.doc (locate o.ident)

theorem findings_cons (dialect : Dialect) (binder : Comment.Binder) (locate : Span → Option Location)
    (claimed : List Nat) (o : Occurrence) (os : List Occurrence) :
    findings dialect binder locate claimed (o :: os) =
      o.describe dialect (o.comment binder claimed).1 (locate o.ident) ::
        findings dialect binder locate (o.comment binder claimed).2 os := rfl

theorem findings_forall₂ (dialect : Dialect) (binder : Comment.Binder)
    (locate : Span → Option Location) (claimed : List Nat) (os : List Occurrence) :
    List.Forall₂ (Finding.IsOf dialect locate) os (findings dialect binder locate claimed os) := by
  induction os generalizing claimed with
  | nil => exact .nil
  | cons o os ih => exact .cons rfl (ih _)

namespace Finding.IsOf

variable {dialect : Dialect} {locate : Span → Option Location} {o : Occurrence} {f : Finding}

theorem id_eq (h : f.IsOf dialect locate o) : f.id = o.id := by rw [h]; rfl

theorem kind_eq (h : f.IsOf dialect locate o) : f.kind = o.kind := by rw [h]; rfl

theorem name_eq (h : f.IsOf dialect locate o) : f.name = o.name := by rw [h]; rfl

theorem localName_eq (h : f.IsOf dialect locate o) : f.localName = o.localName := by rw [h]; rfl

theorem role_eq (h : f.IsOf dialect locate o) : f.role = o.role := by rw [h]; rfl

theorem position_eq (h : f.IsOf dialect locate o) : f.position = o.ident.start := by rw [h]; rfl

theorem location_eq (h : f.IsOf dialect locate o) : f.location = locate o.ident := by rw [h]; rfl

theorem dependencies_eq (h : f.IsOf dialect locate o) : f.dependencies = o.dependencies := by rw [h]; rfl

/-- A finding has the visibility its comment asks for, or else that of the occurrence. -/
theorem visibility_eq (h : f.IsOf dialect locate o) :
    f.visibility = (f.doc.bind Comment.Doc.visibility?).getD o.visibility := by
  conv_lhs => rw [h]
  rfl

theorem id_beq (h : f.IsOf dialect locate o) (id : Identity) : (o.id == id) ↔ (f.id == id) := by
  rw [h.id_eq]

end Finding.IsOf

/-- Occurrences and their findings stay side by side when both are picked by the same data. -/
theorem forall₂_filter {dialect : Dialect} {locate : Span → Option Location} {os : List Occurrence}
    {fs : List Finding} (h : List.Forall₂ (Finding.IsOf dialect locate) os fs)
    {p : Occurrence → Bool} {q : Finding → Bool}
    (hpq : ∀ {o f}, Finding.IsOf dialect locate o f → (p o ↔ q f)) :
    List.Forall₂ (Finding.IsOf dialect locate) (os.filter p) (fs.filter q) :=
  List.rel_filter (fun _ _ hof => hpq hof) h

/-- The findings of one kind, beside its occurrences put in order. -/
theorem Component.findings_of_sorted {c : Component} {options : Options} {dialect : Dialect}
    {found : List Finding} (h : c.findings options dialect = .ok found) {kind : EntityKind}
    (hk : kind ∈ options.kinds) : ∃ os, dialect.occurrences c kind = .ok os ∧
      List.Forall₂ (Finding.IsOf dialect (options.locate c)) (sortOccurrences os)
        (found.filter (·.kind == kind)) := by
  obtain ⟨oss, ho, h⟩ := bind_eq_ok_iff.mp h
  obtain rfl := Except.ok.inj h
  refine ⟨_, filter_kind_flatten (mapM_eq_ok_iff.mp ho) (nodup_eraseDups _) hk, ?_⟩
  rw [← filter_sortOccurrences]
  refine forall₂_filter (findings_forall₂ ..) fun hof => ?_
  rw [hof.kind_eq]

/-- The findings of one kind, beside its occurrences in order. -/
theorem Component.findings_of_kind {c : Component} {options : Options} {dialect : Dialect}
    {found : List Finding} (h : c.findings options dialect = .ok found) {kind : EntityKind}
    (hk : kind ∈ options.kinds) : ∃ os sorted, dialect.occurrences c kind = .ok os ∧
      sorted.Perm os ∧ sorted.Pairwise (fun a b => a.ident.start ≤ b.ident.start) ∧
      List.Forall₂ (Finding.IsOf dialect (options.locate c)) sorted (found.filter (·.kind == kind)) := by
  obtain ⟨os, ho, hall⟩ := c.findings_of_sorted h hk
  exact ⟨os, sortOccurrences os, ho, sortOccurrences_perm os, sortOccurrences_pairwise os, hall⟩

def taggedSource : List Char :=
  "<script>/**@private*/let a;export{a}</script>".toList

/-- What `taggedSource` is taken apart into. -/
def tagged : Component where
  name := none
  source := taggedSource
  markup := List.replicate 45 ' '
  scripts := [
    { isModule := false
      isTypeScript := false
      offset := 8
      items := [
        ⟨13, .statement (.declaration (.vars 13 false
          [.mk ⟨17, 18⟩ (.ident ⟨"a", ⟨17, 18⟩⟩ []) none]))⟩,
        ⟨19, .exportList ⟨false, [.member 26 (.ident ⟨"a", ⟨26, 27⟩⟩) none false], none⟩⟩]
      comments := [⟨.block, ⟨8, 21⟩, "*@private".toList⟩] }]
  markupComments := []

set_option maxRecDepth 4096 in
theorem parse_taggedSource : Component.parse taggedSource none = .ok tagged := by
  cbv

end ComponentDoc
