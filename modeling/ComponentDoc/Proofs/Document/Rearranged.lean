import ComponentDoc.Proofs.Document.Assembly

namespace ComponentDoc

theorem Role.rank_injective {r s : Role} (h : r.rank = s.rank) : r = s := by
  cases r <;> cases s <;> simp [Role.rank] at h ⊢

namespace Finding

/-- The order of merging tells the findings of one identity apart. -/
def ToldApart (fs : List Finding) : Prop :=
  fs.Pairwise fun a b => a.id = b.id → (a.role, a.position) ≠ (b.role, b.position)

/-- The entities are those of the identities, each made of the findings of its identity alone, in the order in
which the identities are first met; an identity that is left out has no entity to show. -/
def ListedAsMet (ignored : List Visibility) (withLocations : Bool) (fs : List Finding)
    (entities : List Entity) : Prop :=
  ∃ ids : List Identity,
    (ids.Pairwise fun i j => (fs.map Finding.id).idxOf i < (fs.map Finding.id).idxOf j) ∧
    List.Forall₂ (fun id e => assemble ignored withLocations (ofId id fs) = [e]) ids entities ∧
    ∀ id, id ∉ ids → assemble ignored withLocations (ofId id fs) = []

theorem precedes_antisymm {a b : Finding} (hab : a.precedes b) (hba : b.precedes a) :
    (a.role, a.position) = (b.role, b.position) := by
  rw [precedes_iff] at hab hba
  have hrank : a.role.rank = b.role.rank := by omega
  have hposition : a.position = b.position := by omega
  rw [Role.rank_injective hrank, hposition]

theorem ToldApart.nodup_ofId {fs : List Finding} (h : ToldApart fs) (id : Identity) :
    ((ofId id fs).map fun f => (f.role, f.position)).Nodup := by
  refine List.pairwise_map.mpr ((h.filter _).imp_of_mem fun {a b} ha hb hab => hab ?_)
  have hida : a.id = id := by simpa using (List.mem_filter.mp ha).2
  have hidb : b.id = id := by simpa using (List.mem_filter.mp hb).2
  rw [hida, hidb]

/-- Findings that are told apart are put in one order, however they come. -/
theorem mergeSort_eq_of_perm {fs gs : List Finding} (h : (fs.map fun f => (f.role, f.position)).Nodup)
    (hp : fs.Perm gs) : fs.mergeSort precedes = gs.mergeSort precedes := by
  have hsorted (hs : List Finding) := List.pairwise_mergeSort precedes_trans precedes_total hs
  have hperm : (fs.mergeSort precedes).Perm (gs.mergeSort precedes) :=
    (List.mergeSort_perm fs precedes).trans (hp.trans (List.mergeSort_perm gs precedes).symm)
  refine hperm.eq_of_pairwise ?_ (hsorted fs) (hsorted gs)
  intro a b ha hb hab hba
  have ha' : a ∈ fs := List.mem_mergeSort.mp ha
  have hb' : b ∈ fs := hp.mem_iff.mpr (List.mem_mergeSort.mp hb)
  exact List.inj_on_of_nodup_map h ha' hb' (precedes_antisymm hab hba)

theorem entity?_eq_of_perm (withLocations : Bool) {fs gs : List Finding} (h : ToldApart fs) (hp : fs.Perm gs)
    (id : Identity) : entity? withLocations (ofId id fs) = entity? withLocations (ofId id gs) := by
  have hsort := mergeSort_eq_of_perm (h.nodup_ofId id) (hp.filter _)
  unfold entity?
  rw [hsort]
  rfl

/-- The entity of an identity, unless its visibility is ignored. -/
def shown? (ignored : List Visibility) (withLocations : Bool) (fs : List Finding) (id : Identity) :
    Option Entity :=
  (entity? withLocations (ofId id fs)).filter fun e => !ignored.contains e.visibility

theorem assemble_eq_filterMap (ignored : List Visibility) (withLocations : Bool) (fs : List Finding) :
    assemble ignored withLocations fs =
      (fs.map Finding.id).eraseDups.filterMap (shown? ignored withLocations fs) := by
  unfold assemble shown?
  rw [List.filter_filterMap]
  rfl

theorem shown?_eq_none {fs : List Finding} {id : Identity} (h : id ∉ fs.map Finding.id)
    (ignored : List Visibility) (withLocations : Bool) : shown? ignored withLocations fs id = none := by
  have hnil : ofId id fs = [] := by
    rw [ofId, List.filter_eq_nil_iff]
    intro f hf hid
    exact h (List.mem_map.mpr ⟨f, hf, by simpa using hid⟩)
  rw [shown?, hnil]
  simp [entity?]

/-- The findings of one identity make its entity, and no other. -/
theorem assemble_ofId (ignored : List Visibility) (withLocations : Bool) (fs : List Finding) (id : Identity) :
    assemble ignored withLocations (ofId id fs) = (shown? ignored withLocations fs id).toList := by
  have hids : ∀ i ∈ (ofId id fs).map Finding.id, i = id := by
    intro i hi
    obtain ⟨f, hf, rfl⟩ := List.mem_map.mp hi
    simpa using (List.mem_filter.mp hf).2
  have hshown : shown? ignored withLocations (ofId id fs) id = shown? ignored withLocations fs id := by
    unfold shown? ofId
    rw [List.filter_filter]
    simp
  rw [assemble_eq_filterMap]
  by_cases hid : id ∈ (ofId id fs).map Finding.id
  · have hone : ((ofId id fs).map Finding.id).eraseDups = [id] := by
      refine List.perm_singleton.mp ((List.perm_ext_iff_of_nodup (nodup_eraseDups _) ?_).mpr ?_)
      · exact List.nodup_singleton id
      · intro i
        rw [List.mem_eraseDups, List.mem_singleton]
        exact ⟨hids i, fun h => h ▸ hid⟩
    rw [hone, ← hshown]
    cases hs : shown? ignored withLocations (ofId id fs) id <;> simp [hs]
  · have hnil : (ofId id fs).map Finding.id = [] := by
      refine List.eq_nil_iff_forall_not_mem.mpr fun i hi => hid ?_
      obtain rfl := hids i hi
      exact hi
    rw [hnil, ← hshown, shown?_eq_none hid]
    rfl

theorem listedAsMet_assemble (ignored : List Visibility) (withLocations : Bool) (fs : List Finding) :
    ListedAsMet ignored withLocations fs (assemble ignored withLocations fs) := by
  let shown (id : Identity) : Bool := (shown? ignored withLocations fs id).isSome
  refine ⟨(fs.map Finding.id).eraseDups.filter shown, ?_, ?_, ?_⟩
  · exact (pairwise_idxOf_eraseDups _).filter shown
  · have hsome : ∀ id ∈ (fs.map Finding.id).eraseDups.filter shown,
        ∃ e, shown? ignored withLocations fs id = some e :=
      fun id hid => Option.isSome_iff_exists.mp (List.mem_filter.mp hid).2
    have hall := filterMap_forall₂ hsome
    rw [List.filterMap_filter] at hall
    have heq : assemble ignored withLocations fs = (fs.map Finding.id).eraseDups.filterMap
        fun id => if shown id then shown? ignored withLocations fs id else none := by
      rw [assemble_eq_filterMap]
      refine congrArg (List.filterMap · _) (funext fun id => ?_)
      cases hs : shown? ignored withLocations fs id <;> simp [shown, hs]
    rw [heq]
    refine hall.imp fun id e he => ?_
    rw [assemble_ofId, he]
    rfl
  · intro id hid
    rw [assemble_ofId]
    by_cases hm : id ∈ fs.map Finding.id
    · have hnone : shown? ignored withLocations fs id = none := by
        by_contra hne
        refine hid (List.mem_filter.mpr ⟨List.mem_eraseDups.mpr hm, ?_⟩)
        exact Option.isSome_iff_ne_none.mpr hne
      rw [hnone]
      rfl
    · rw [shown?_eq_none hm]
      rfl

/-- Findings in any other order make the same entities, each identity the same one; both lists of entities are in
the order in which their identities are first met. -/
theorem assemble_rearranged (ignored : List Visibility) (withLocations : Bool) {fs gs : List Finding}
    (hapart : ToldApart fs) (hperm : fs.Perm gs) :
    (assemble ignored withLocations fs).Perm (assemble ignored withLocations gs) ∧
    (∀ id, assemble ignored withLocations (ofId id fs) = assemble ignored withLocations (ofId id gs)) ∧
    ListedAsMet ignored withLocations fs (assemble ignored withLocations fs) ∧
    ListedAsMet ignored withLocations gs (assemble ignored withLocations gs) := by
  have hshown : shown? ignored withLocations fs = shown? ignored withLocations gs := by
    funext id
    rw [shown?, entity?_eq_of_perm withLocations hapart hperm id]
    rfl
  refine ⟨?_, ?_, listedAsMet_assemble .., listedAsMet_assemble ..⟩
  · have hids : (fs.map Finding.id).eraseDups.Perm (gs.map Finding.id).eraseDups := by
      refine (List.perm_ext_iff_of_nodup (nodup_eraseDups _) (nodup_eraseDups _)).mpr fun id => ?_
      rw [List.mem_eraseDups, List.mem_eraseDups, (hperm.map Finding.id).mem_iff]
    rw [assemble_eq_filterMap, assemble_eq_filterMap, hshown]
    exact hids.filterMap _
  · intro id
    rw [assemble_ofId, assemble_ofId, hshown]

/-- A finding of a name that a script declares, public where it is used. -/
def inScript (id name : String) (role : Role) (position : Nat) (doc : Option Comment.Doc) : Finding where
  id := .declared 0 id
  name := name
  localName := none
  sourceName := none
  importPath := none
  kind := .data
  visibility := if role = .usage then .pub else .priv
  isStatic := false
  role := role
  position := position
  type := .any
  doc := doc
  location := some ⟨position, position + name.length⟩
  params := []
  dependencies := []

def scattered : List Finding :=
  [inScript "inner" "late" .usage 70 (some ⟨some "the last export", []⟩),
   inScript "inner" "inner" .declaration 50 none,
   inScript "inner" "outer" .usage 40 (some ⟨some "the first export", []⟩),
   inScript "other" "other" .usage 10 none]

/-- The one name is declared between its uses; the other comes last in one list, and first in the reverse. -/
theorem assemble_rearranged_scattered : ToldApart scattered ∧ scattered.Perm scattered.reverse ∧
    (assemble [.priv] true scattered).Perm (assemble [.priv] true scattered.reverse) ∧
    (∀ id, assemble [.priv] true (ofId id scattered) = assemble [.priv] true (ofId id scattered.reverse)) ∧
    ListedAsMet [.priv] true scattered (assemble [.priv] true scattered) ∧
    ListedAsMet [.priv] true scattered.reverse (assemble [.priv] true scattered.reverse) ∧
    (assemble [.priv] true scattered).map Entity.name = ["outer", "other"] ∧
    (assemble [.priv] true scattered.reverse).map Entity.name = ["other", "outer"] := by
  have hapart : ToldApart scattered := by
    unfold ToldApart
    decide
  have hperm : scattered.Perm scattered.reverse := (List.reverse_perm scattered).symm
  obtain ⟨hsame, hids, hlisted, hlisted'⟩ := assemble_rearranged [.priv] true hapart hperm
  exact ⟨hapart, hperm, hsame, hids, hlisted, hlisted', by cbv, by cbv⟩

end Finding

end ComponentDoc
