import ComponentDoc.Proofs.Document.Assembly
import ComponentDoc.Proofs.Document.Findings

namespace ComponentDoc

open Text

/-- The places of the occurrences of an identity. -/
def placesOf (source : List Char) (os : List Occurrence) (id : Identity) : List Location :=
  (os.filter (·.id == id)).map fun o => locate source o.ident

/-- Where an identity occurs first. -/
def earliest? (os : List Occurrence) (id : Identity) : Option Nat :=
  ((os.filter (·.id == id)).map fun o => o.ident.start).min?

/-- How many places an entity lists. -/
def Entity.placeCount (e : Entity) : Nat :=
  (e.locations.getD []).length

/-- The section of a kind beside the occurrences of that kind; `ids` holds the identity of each entity. -/
structure Conserves (source : List Char) (kind : EntityKind) (os : List Occurrence)
    (ids : List Identity) (listed : List Entity) : Prop where
  distinct : ids.Nodup
  complete : ∀ id, id ∈ ids ↔ ∃ o ∈ os, o.id = id
  entities : List.Forall₂ (fun id e => e.kind = kind ∧
    ∃ places, e.locations = some places ∧ places.Perm (placesOf source os id)) ids listed
  total : (listed.map Entity.placeCount).sum = os.length
  ordered : ids.Pairwise fun i j => ∀ m n, earliest? os i = some m → earliest? os j = some n → m ≤ n

theorem placesOf_perm (source : List Char) {os os' : List Occurrence} (h : os.Perm os')
    (id : Identity) : (placesOf source os id).Perm (placesOf source os' id) :=
  (h.filter _).map _

theorem length_placesOf (source : List Char) (os : List Occurrence) (id : Identity) :
    (placesOf source os id).length = (os.filter (·.id == id)).length := by
  rw [placesOf, List.length_map]

theorem filterMap_location_eq {dialect : Dialect} {source : List Char} {os : List Occurrence}
    {fs : List Finding}
    (h : List.Forall₂ (Finding.IsOf dialect fun span => some (locate source span)) os fs) :
    fs.filterMap Finding.location = os.map fun o => locate source o.ident := by
  induction h with
  | nil => rfl
  | cons hr _ ih => rw [List.filterMap_cons_some hr.location_eq, ih, List.map_cons]

/-- An entity lists the places of all occurrences of its identity. -/
theorem locations_of_entity? {dialect : Dialect} {source : List Char} {os : List Occurrence}
    {fs : List Finding}
    (h : List.Forall₂ (Finding.IsOf dialect fun span => some (locate source span)) os fs)
    {id : Identity} {e : Entity} (he : Finding.entity? true (Finding.ofId id fs) = some e) :
    ∃ places, e.locations = some places ∧ places.Perm (placesOf source os id) := by
  obtain ⟨primary, rest, hs, rfl⟩ := Finding.entity?_eq_some_iff.mp he
  refine ⟨(primary :: rest).filterMap Finding.location, rfl, ?_⟩
  rw [← hs, placesOf, ← filterMap_location_eq (forall₂_filter h fun hof => hof.id_beq id)]
  exact (List.mergeSort_perm _ _).filterMap _

theorem kind_of_entity? {kind : EntityKind} {withLocations : Bool} {fs : List Finding}
    (hk : ∀ f ∈ fs, f.kind = kind) {id : Identity} {e : Entity}
    (he : Finding.entity? withLocations (Finding.ofId id fs) = some e) : e.kind = kind := by
  obtain ⟨primary, rest, hs, rfl⟩ := Finding.entity?_eq_some_iff.mp he
  have hm := (Finding.mem_of_mergeSort_eq hs).mp List.mem_cons_self
  exact hk primary (List.mem_filter.mp hm).1

theorem earliest?_eq_some_iff {os : List Occurrence} {id : Identity} {n : Nat} :
    earliest? os id = some n ↔ (∃ o ∈ os, o.id = id ∧ o.ident.start = n) ∧
      ∀ o ∈ os, o.id = id → n ≤ o.ident.start := by
  rw [earliest?, List.min?_eq_some_iff, List.forall_mem_map]
  simp [and_assoc]

/-- Identities in the order in which they are met in a list in order of place. -/
theorem pairwise_earliest {os sorted : List Occurrence} (hp : sorted.Perm os)
    (hs : sorted.Pairwise fun a b => a.ident.start ≤ b.ident.start) :
    (sorted.map Occurrence.id).eraseDups.Pairwise fun i j =>
      ∀ m n, earliest? os i = some m → earliest? os j = some n → m ≤ n := by
  refine (pairwise_eraseDups_of_pairwise Occurrence.id (·.ident.start) sorted hs).imp ?_
  intro i j h m n hm hn
  obtain ⟨b, hb, hj, rfl⟩ := (earliest?_eq_some_iff.mp hn).1
  obtain ⟨a, ha, hi, hle⟩ := h b (hp.mem_iff.mpr hb) hj
  exact ((earliest?_eq_some_iff.mp hm).2 a (hp.mem_iff.mp ha) hi).trans hle

/-- The entities of findings that stand beside occurrences of one kind in order of place. -/
theorem assemble_conserves {dialect : Dialect} {source : List Char} {kind : EntityKind}
    {os sorted : List Occurrence} {fs : List Finding} (hp : sorted.Perm os)
    (hs : sorted.Pairwise fun a b => a.ident.start ≤ b.ident.start)
    (h : List.Forall₂ (Finding.IsOf dialect fun span => some (locate source span)) sorted fs)
    (hk : ∀ f ∈ fs, f.kind = kind) :
    Conserves source kind os (sorted.map Occurrence.id).eraseDups (Finding.assemble [] true fs) := by
  have hids : fs.map Finding.id = sorted.map Occurrence.id :=
    map_eq_map_of_forall₂ h fun hof => hof.id_eq
  have hall := Finding.assemble_forall₂ true fs
  rw [hids] at hall
  have hplaces : List.Forall₂ (fun id e => e.kind = kind ∧
      ∃ places, e.locations = some places ∧ places.Perm (placesOf source os id))
      (sorted.map Occurrence.id).eraseDups (Finding.assemble [] true fs) := by
    refine hall.imp fun id e he => ⟨kind_of_entity? hk he, ?_⟩
    obtain ⟨places, hl, hperm⟩ := locations_of_entity? h he
    exact ⟨places, hl, hperm.trans (placesOf_perm source hp id)⟩
  refine ⟨nodup_eraseDups _, ?_, hplaces, ?_, pairwise_earliest hp hs⟩
  · intro id
    rw [List.mem_eraseDups, List.mem_map]
    simp only [hp.mem_iff]
  · have hcount : (Finding.assemble [] true fs).map Entity.placeCount =
        (sorted.map Occurrence.id).eraseDups.map fun id => (sorted.filter (·.id == id)).length := by
      refine map_eq_map_of_forall₂ hplaces ?_
      rintro id e ⟨_, places, hl, hperm⟩
      rw [Entity.placeCount, hl, Option.getD_some, hperm.length_eq, length_placesOf]
      exact (hp.symm.filter _).length_eq
    rw [hcount, sum_length_filter_eraseDups, hp.length_eq]

/-- The places that a section lists, measured together, are those of the occurrences. -/
theorem Conserves.sum_places {source : List Char} {kind : EntityKind} {os : List Occurrence}
    {ids : List Identity} {listed : List Entity} (h : Conserves source kind os ids listed)
    (measure : Location → Nat) :
    (listed.map fun e => ((e.locations.getD []).map measure).sum).sum =
      (os.map fun o => measure (locate source o.ident)).sum := by
  have hplaces : (listed.map fun e => ((e.locations.getD []).map measure).sum) =
      ids.map fun id =>
        ((os.filter fun o => o.id == id).map fun o => measure (locate source o.ident)).sum := by
    refine map_eq_map_of_forall₂ h.entities ?_
    rintro id e ⟨_, places, hl, hperm⟩
    rw [hl, Option.getD_some, (hperm.map measure).sum_eq, placesOf, List.map_map]
    rfl
  rw [hplaces]
  exact sum_map_filter_of_nodup h.distinct (fun o ho => (h.complete o.id).mpr ⟨o, ho, rfl⟩) _

/-- The section of a kind asked for conserves what its dialect lists. -/
theorem conserves_of_mem_kinds {c : Component} {options : Options} {doc : Document} {dialect : Dialect}
    (hi : options.ignoredVisibilities = []) (hl : options.withLocations = true)
    (h : extract c options = .ok doc) (hd : options.dialect c = .ok dialect) {kind : EntityKind}
    (hk : kind ∈ options.kinds) :
    ∃ os ids, dialect.occurrences c kind = .ok os ∧ Conserves c.source kind os ids (doc.entities kind) := by
  obtain ⟨_, found, hd', hf, he⟩ := extract_eq_ok h
  obtain rfl := Except.ok.inj (hd.symm.trans hd')
  obtain ⟨os, sorted, ho, hp, hs, hof⟩ := c.findings_of_kind hf hk
  have hlocate : options.locate c = fun span => some (locate c.source span) := by
    funext span
    simp [Options.locate, hl]
  rw [hlocate] at hof
  refine ⟨os, (sorted.map Occurrence.id).eraseDups, ho, ?_⟩
  rw [he, Options.entities_of_mem hk, hi, hl]
  exact assemble_conserves hp hs hof fun f hm => by simpa using (List.mem_filter.mp hm).2

/-- Where nothing is ignored and places are asked for, the section of each kind asked for conserves its
occurrences, and all other sections are empty. -/
theorem extract_conserves_occurrences (c : Component) (options : Options) (doc : Document)
    (hi : options.ignoredVisibilities = []) (hl : options.withLocations = true)
    (h : extract c options = .ok doc) :
    ∃ dialect, options.dialect c = .ok dialect ∧
      (∀ kind, (∃ f ∈ options.features, f.kind? = some kind) →
        ∃ os ids, dialect.occurrences c kind = .ok os ∧
          Conserves c.source kind os ids (doc.entities kind)) ∧
      ∀ kind, (∀ f ∈ options.features, f.kind? ≠ some kind) → doc.entities kind = [] := by
  obtain ⟨dialect, _, hd, _, he⟩ := extract_eq_ok h
  refine ⟨dialect, hd, ?_, ?_⟩
  · intro kind hkind
    exact conserves_of_mem_kinds hi hl h hd (Options.mem_kinds.mpr hkind)
  · intro kind hkind
    rw [he, Options.entities_of_not_mem]
    intro hk
    obtain ⟨f, hm, hfk⟩ := Options.mem_kinds.mp hk
    exact hkind f hm hfk

/-- A variable that is declared and exported is one entity with two places. -/
theorem extract_conserves_tagged :
    Component.parse taggedSource none = .ok tagged ∧
    ∃ doc, extract tagged { version := some 3, ignoredVisibilities := [], withLocations := true } = .ok doc ∧
      ((doc.entities .data).map Entity.placeCount).sum = 2 := by
  refine ⟨parse_taggedSource, _, rfl, ?_⟩
  obtain ⟨dialect, hd, hasked, _⟩ := extract_conserves_occurrences tagged
    { version := some 3, ignoredVisibilities := [], withLocations := true } _ rfl rfl rfl
  obtain rfl : Dialect.v3 = dialect := Except.ok.inj hd
  obtain ⟨os, ids, ho, hc⟩ := hasked .data ⟨.data, by decide, rfl⟩
  have hlength : (Dialect.v3.occurrences tagged .data).map List.length = .ok 2 := by decide
  rw [ho] at hlength
  exact hc.total.trans (Except.ok.inj hlength)

end ComponentDoc
