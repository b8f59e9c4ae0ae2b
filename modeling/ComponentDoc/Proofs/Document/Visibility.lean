import ComponentDoc.Proofs.Document.Declaration

namespace ComponentDoc

open Text

/-- The visibility that the first keyword naming one asks for. -/
def Entity.tag? (e : Entity) : Option Visibility :=
  e.keywords.findSome? fun k => Visibility.ofName? k.name

theorem Visibility.rank_injective : Function.Injective Visibility.rank := by
  intro a b h
  cases a <;> cases b <;> simp_all [Visibility.rank]

theorem Visibility.rank_max_le_iff {a b : Visibility} {n : Nat} :
    (a.max b).rank ≤ n ↔ a.rank ≤ n ∧ b.rank ≤ n := by
  unfold Visibility.max
  split_ifs with h
  · have hle := Nat.ble_eq.mp h
    omega
  · have hlt : ¬ a.rank ≤ b.rank := fun hle => h (Nat.ble_eq.mpr hle)
    omega

namespace Finding

theorem rank_exposure_le_iff {start : Visibility} {fs : List Finding} {n : Nat} :
    (exposure start fs).rank ≤ n ↔ start.rank ≤ n ∧ ∀ f ∈ fs, f.visibility.rank ≤ n := by
  unfold exposure
  induction fs generalizing start with
  | nil => simp
  | cons f fs ih =>
    rw [List.foldl_cons, ih, Visibility.rank_max_le_iff, List.forall_mem_cons, and_assoc]

theorem exposure_mem (start : Visibility) (fs : List Finding) :
    exposure start fs = start ∨ ∃ f ∈ fs, f.visibility = exposure start fs := by
  unfold exposure
  induction fs generalizing start with
  | nil => exact Or.inl rfl
  | cons f fs ih =>
    rw [List.foldl_cons]
    rcases ih (start.max f.visibility) with h | ⟨g, hg, h⟩
    · rw [h]
      unfold Visibility.max
      split_ifs
      · exact Or.inr ⟨f, List.mem_cons_self, rfl⟩
      · exact Or.inl rfl
    · exact Or.inr ⟨g, List.mem_cons_of_mem _ hg, h⟩

/-- An entity is as exposed as the most exposed of its findings. -/
theorem visibility_of_entity? {withLocations : Bool} {group : List Finding} {e : Entity}
    (h : entity? withLocations group = some e) :
    (∃ g ∈ group, g.visibility = e.visibility) ∧
      ∀ g ∈ group, g.visibility.rank ≤ e.visibility.rank := by
  obtain ⟨primary, rest, hs, rfl⟩ := entity?_eq_some_iff.mp h
  have hall : _ ∧ ∀ g ∈ primary :: rest,
      g.visibility.rank ≤ (exposure primary.visibility (primary :: rest)).rank :=
    rank_exposure_le_iff.mp (le_refl _)
  constructor
  · rcases exposure_mem primary.visibility (primary :: rest) with he | ⟨g, hg, he⟩
    · exact ⟨primary, (mem_of_mergeSort_eq hs).mp List.mem_cons_self, he.symm⟩
    · exact ⟨g, (mem_of_mergeSort_eq hs).mp hg, he⟩
  · intro g hg
    exact hall.2 g ((mem_of_mergeSort_eq hs).mpr hg)

/-- The keywords of an entity that asks for a visibility are those in the comment of a finding. -/
theorem exists_doc_of_tag? {withLocations : Bool} {group : List Finding} {e : Entity}
    (h : entity? withLocations group = some e) {v : Visibility} (ht : e.tag? = some v) :
    ∃ f ∈ group, ∃ doc, f.doc = some doc ∧ doc.keywords = e.keywords := by
  obtain ⟨primary, rest, hs, rfl⟩ := entity?_eq_some_iff.mp h
  cases hf : (primary :: rest).findSome? Finding.doc with
  | none => simp [merge, hf, Entity.tag?] at ht
  | some doc =>
    obtain ⟨f, hm, hdoc⟩ := List.exists_of_findSome?_eq_some hf
    exact ⟨f, (mem_of_mergeSort_eq hs).mp hm, doc, hdoc, by simp [merge, hf]⟩

end Finding

/-- An entity that asks for the visibility `v`, beside the findings it is made of: the keyword stands in
the comment of one of them, and the most exposed of them is as exposed as the entity. -/
structure Exposed (group : List Finding) (v : Visibility) (e : Entity) : Prop where
  asked : ∃ f ∈ group, ∃ doc, f.doc = some doc ∧ doc.keywords = e.keywords ∧ f.visibility = v
  attained : ∃ g ∈ group, g.visibility = e.visibility
  most : ∀ g ∈ group, g.visibility.rank ≤ e.visibility.rank
  eq_iff : e.visibility = v ↔ ∀ g ∈ group, g.visibility.rank ≤ v.rank

theorem exposed_of_entity? {dialect : Dialect} {locate : Span → Option Location}
    {withLocations : Bool} {os : List Occurrence} {group : List Finding} {e : Entity} {v : Visibility}
    (h : List.Forall₂ (Finding.IsOf dialect locate) os group)
    (he : Finding.entity? withLocations group = some e) (ht : e.tag? = some v) : Exposed group v e := by
  obtain ⟨f, hf, doc, hdoc, hk⟩ := Finding.exists_doc_of_tag? he ht
  obtain ⟨hattained, hmost⟩ := Finding.visibility_of_entity? he
  obtain ⟨o, _, hof⟩ := mem_of_forall₂ h hf
  have hasked : doc.visibility? = some v := by
    rw [Comment.Doc.visibility?, hk]
    exact ht
  have hv : f.visibility = v := by
    rw [hof.visibility_eq, hdoc, Option.bind_some, hasked, Option.getD_some]
  refine ⟨⟨f, hf, doc, hdoc, hk, hv⟩, hattained, hmost, ?_, ?_⟩
  · rintro rfl
    exact hmost
  · intro hall
    obtain ⟨g, hg, hge⟩ := hattained
    have hle : v.rank ≤ e.visibility.rank := hv ▸ hmost f hf
    exact Visibility.rank_injective (le_antisymm (hge ▸ hall g hg) hle)

/-- An entity whose comment asks for a visibility is as exposed as its most exposed occurrence, where each
counts with the visibility its own comment asks for or else with its own. The one asked for is among
these, so that the entity has it just when no occurrence of its identity is more exposed. -/
theorem tagged_entity_visibility (c : Component) (options : Options) (dialect : Dialect)
    (doc : Document) (hd : options.dialect c = .ok dialect) (h : extract c options = .ok doc)
    (kind : EntityKind) (e : Entity) (he : e ∈ doc.entities kind) (v : Visibility)
    (ht : e.tag? = some v) :
    e.visibility ∉ options.ignoredVisibilities ∧ ∃ os found id sorted,
      dialect.occurrences c kind = .ok os ∧ c.findings options dialect = .ok found ∧
      Finding.entity? options.withLocations (groupOf found kind id) = some e ∧
      sorted.Perm (os.filter (·.id == id)) ∧
      List.Forall₂ (fun o f => f.IsOf dialect (options.locate c) o ∧
        f.visibility = (f.doc.bind Comment.Doc.visibility?).getD o.visibility)
        sorted (groupOf found kind id) ∧
      Exposed (groupOf found kind id) v e := by
  obtain ⟨hk, hignored, found, id, hf, _, hg⟩ := exists_group_of_mem_entities hd h he
  obtain ⟨os, sorted, ho, hp, _, hof⟩ := c.findings_of_kind hf hk
  have hgroup : List.Forall₂ (Finding.IsOf dialect (options.locate c))
      (sorted.filter (·.id == id)) (groupOf found kind id) :=
    forall₂_filter hof fun hof => hof.id_beq id
  refine ⟨hignored, os, found, id, _, ho, hf, hg, hp.filter _, ?_, exposed_of_entity? hgroup hg ht⟩
  exact hgroup.imp fun _ _ hof => ⟨hof, hof.visibility_eq⟩

theorem exists_exported_private : ∃ doc, extract tagged {} = .ok doc ∧ ∃ e ∈ doc.entities .data,
    e.tag? = some .priv ∧ e.visibility = .pub := by
  have hdata : ∃ doc, extract tagged {} = .ok doc ∧
      (doc.entities .data).map (fun e => (e.tag?, e.visibility)) = [(some .priv, .pub)] :=
    ⟨_, rfl, by cbv⟩
  obtain ⟨doc, hdoc, hmap⟩ := hdata
  obtain ⟨e, he, hpair⟩ := List.mem_map.mp (hmap ▸ List.mem_singleton_self _)
  obtain ⟨ht, hv⟩ := Prod.mk.inj hpair
  exact ⟨doc, hdoc, e, he, ht, hv⟩

/-- The exported variable is asked to be private and is public, as its export is. -/
theorem tagged_entity_visibility_exported :
    Component.parse taggedSource none = .ok tagged ∧ ∃ doc e, extract tagged {} = .ok doc ∧
      e ∈ doc.entities .data ∧ e.tag? = some .priv ∧ e.visibility = .pub ∧
      .priv ∈ Options.ignoredVisibilities {} ∧ e.visibility ∉ Options.ignoredVisibilities {} ∧
      ∃ os found id sorted, Dialect.v3.occurrences tagged .data = .ok os ∧
        tagged.findings {} .v3 = .ok found ∧
        Finding.entity? false (groupOf found .data id) = some e ∧
        sorted.Perm (os.filter (·.id == id)) ∧
        List.Forall₂ (fun o f => f.IsOf .v3 (Options.locate {} tagged) o ∧
          f.visibility = (f.doc.bind Comment.Doc.visibility?).getD o.visibility)
          sorted (groupOf found .data id) ∧
        Exposed (groupOf found .data id) .priv e := by
  obtain ⟨doc, hdoc, e, he, ht, hv⟩ := exists_exported_private
  have hthm := tagged_entity_visibility tagged {} .v3 doc rfl hdoc .data e he .priv ht
  exact ⟨parse_taggedSource, doc, e, hdoc, he, ht, hv, by decide, hthm.1, hthm.2⟩

/-- A keyword does not settle the visibility of an entity alone. -/
theorem exported_private_is_public :
    ¬ ∀ source path c options doc, Component.parse source path = .ok c →
      extract c options = .ok doc → ∀ kind, ∀ e ∈ doc.entities kind, ∀ v, e.tag? = some v →
        e.visibility = v := by
  intro hall
  obtain ⟨doc, hdoc, e, he, ht, hv⟩ := exists_exported_private
  have hpriv := hall taggedSource none tagged {} doc parse_taggedSource hdoc .data e he .priv ht
  cases hv.symm.trans hpriv

end ComponentDoc
