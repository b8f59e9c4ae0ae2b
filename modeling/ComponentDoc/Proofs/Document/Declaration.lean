import ComponentDoc.Proofs.Document.Assembly
import ComponentDoc.Proofs.Document.Findings

namespace ComponentDoc

open Text

/-- The findings that a document joins into the entity of a kind and an identity. -/
def groupOf (found : List Finding) (kind : EntityKind) (id : Identity) : List Finding :=
  Finding.ofId id (found.filter (·.kind == kind))

/-- Every entity of a document is made of the findings of one identity. -/
theorem exists_group_of_mem_entities {c : Component} {options : Options} {dialect : Dialect}
    {doc : Document} (hd : options.dialect c = .ok dialect) (h : extract c options = .ok doc)
    {kind : EntityKind} {e : Entity} (he : e ∈ doc.entities kind) :
    kind ∈ options.kinds ∧ e.visibility ∉ options.ignoredVisibilities ∧ ∃ found id,
      c.findings options dialect = .ok found ∧ id ∈ (found.filter (·.kind == kind)).map Finding.id ∧
      Finding.entity? options.withLocations (groupOf found kind id) = some e := by
  obtain ⟨dialect', found, hd', hf, hentities⟩ := extract_eq_ok h
  obtain rfl : dialect = dialect' := Except.ok.inj (hd.symm.trans hd')
  rw [hentities] at he
  by_cases hk : kind ∈ options.kinds
  · rw [Options.entities_of_mem hk] at he
    obtain ⟨⟨id, hid, hg⟩, hv⟩ := Finding.mem_assemble.mp he
    exact ⟨hk, hv, found, id, hf, hid, hg⟩
  · rw [Options.entities_of_not_mem hk] at he
    cases he

/-- The findings of an identity that occurs hold a declaration. -/
theorem exists_declaration_ofId {dialect : Dialect} {locate : Span → Option Location}
    {os sorted : List Occurrence} {fs : List Finding} (hp : sorted.Perm os) (hl : Linked os)
    (h : List.Forall₂ (Finding.IsOf dialect locate) sorted fs) {id : Identity}
    (hid : id ∈ fs.map Finding.id) : ∃ d ∈ Finding.ofId id fs, d.role = .declaration := by
  obtain ⟨f, hf, rfl⟩ := List.mem_map.mp hid
  obtain ⟨o, ho, hof⟩ := mem_of_forall₂ h hf
  obtain ⟨d, hd, hr, hi⟩ : ∃ d ∈ os, d.role = .declaration ∧ d.id = o.id := by
    cases hr : o.role with
    | declaration => exact ⟨o, hp.mem_iff.mp ho, hr, rfl⟩
    | usage =>
      obtain ⟨d, hd, hrd, hi, _⟩ := hl o (hp.mem_iff.mp ho) hr
      exact ⟨d, hd, hrd, hi⟩
  obtain ⟨g, hg, hgd⟩ := mem_of_forall₂_left h (hp.mem_iff.mpr hd)
  refine ⟨g, List.mem_filter.mpr ⟨hg, ?_⟩, by rw [hgd.role_eq, hr]⟩
  simp [hgd.id_eq, hof.id_eq, hi]

/-- Findings are in order of position if their occurrences are in order of place. -/
theorem pairwise_position {dialect : Dialect} {locate : Span → Option Location}
    {os : List Occurrence} {fs : List Finding} (h : List.Forall₂ (Finding.IsOf dialect locate) os fs)
    (hs : os.Pairwise fun a b => a.ident.start ≤ b.ident.start) :
    fs.Pairwise fun a b => a.position ≤ b.position := by
  have hmap : fs.map Finding.position = os.map fun o => o.ident.start :=
    map_eq_map_of_forall₂ h fun hof => hof.position_eq
  have hpos : (fs.map Finding.position).Pairwise (· ≤ ·) := by
    rw [hmap]
    exact List.pairwise_map.mpr hs
  exact List.pairwise_map.mp hpos

end ComponentDoc
