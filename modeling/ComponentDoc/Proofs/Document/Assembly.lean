import ComponentDoc.Document.Assemble
import ComponentDoc.Proofs.Sorting

namespace ComponentDoc

theorem Role.rank_eq_zero_iff {role : Role} : role.rank = 0 ↔ role = .declaration := by
  cases role <;> simp [Role.rank]

namespace Finding

/-- The findings of an identity. -/
def ofId (id : Identity) (fs : List Finding) : List Finding :=
  fs.filter (·.id == id)

theorem precedes_iff {a b : Finding} : a.precedes b ↔
    a.role.rank < b.role.rank ∨ (a.role.rank = b.role.rank ∧ a.position ≤ b.position) := by
  simp [precedes]

theorem precedes_trans (a b c : Finding) (hab : a.precedes b) (hbc : b.precedes c) :
    a.precedes c := by
  rw [precedes_iff] at *
  omega

theorem precedes_total (a b : Finding) : a.precedes b || b.precedes a := by
  rw [Bool.or_eq_true, precedes_iff, precedes_iff]
  omega

theorem mem_of_mergeSort_eq {group rest : List Finding} {primary f : Finding}
    (hs : group.mergeSort precedes = primary :: rest) : f ∈ primary :: rest ↔ f ∈ group := by
  rw [← hs, List.mem_mergeSort]

/-- The first finding in the order of merging comes before all others. -/
theorem head_precedes {group rest : List Finding} {primary f : Finding}
    (hs : group.mergeSort precedes = primary :: rest) (hf : f ∈ group) : primary.precedes f :=
  le_of_mergeSort_eq_cons precedes_trans precedes_total hs hf

/-- If there is a declaration, the first finding is one, and no declaration stands before it. -/
theorem head_of_declaration {group rest : List Finding} {primary d : Finding}
    (hs : group.mergeSort precedes = primary :: rest) (hd : d ∈ group) (hr : d.role = .declaration) :
    primary.role = .declaration ∧ primary.position ≤ d.position := by
  have hp := precedes_iff.mp (head_precedes hs hd)
  rw [Role.rank_eq_zero_iff.mpr hr] at hp
  obtain hlt | ⟨heq, hle⟩ := hp
  · exact absurd hlt (Nat.not_lt_zero _)
  · exact ⟨Role.rank_eq_zero_iff.mp heq, hle⟩

/-- Findings in order of position: those of one role are sorted already, and a stable sort keeps them as they
stand. -/
theorem filter_role_mergeSort {group : List Finding}
    (hpos : group.Pairwise fun a b => a.position ≤ b.position) (role : Role) :
    (group.mergeSort precedes).filter (·.role == role) = group.filter (·.role == role) := by
  refine filter_mergeSort precedes_trans precedes_total ((hpos.filter _).imp_of_mem ?_)
  intro a b ha hb hab
  have hra : a.role = role := by simpa using (List.mem_filter.mp ha).2
  have hrb : b.role = role := by simpa using (List.mem_filter.mp hb).2
  rw [precedes_iff, hra, hrb]
  exact Or.inr ⟨rfl, hab⟩

theorem entity?_eq_some_iff {withLocations : Bool} {group : List Finding} {e : Entity} :
    entity? withLocations group = some e ↔ ∃ primary rest,
      group.mergeSort precedes = primary :: rest ∧ e = merge withLocations primary (primary :: rest) := by
  unfold entity?
  cases h : group.mergeSort precedes with
  | nil => simp
  | cons primary rest => simp [eq_comm]

theorem exists_entity? (withLocations : Bool) {group : List Finding} (h : group ≠ []) :
    ∃ e, entity? withLocations group = some e := by
  obtain ⟨primary, rest, hs⟩ := exists_mergeSort_eq_cons precedes h
  exact ⟨_, entity?_eq_some_iff.mpr ⟨primary, rest, hs, rfl⟩⟩

theorem ofId_ne_nil {fs : List Finding} {id : Identity} (h : id ∈ fs.map Finding.id) :
    ofId id fs ≠ [] := by
  obtain ⟨f, hf, rfl⟩ := List.mem_map.mp h
  exact List.ne_nil_of_mem (List.mem_filter.mpr ⟨hf, by simp⟩)

theorem mem_assemble {ignored : List Visibility} {withLocations : Bool} {fs : List Finding}
    {e : Entity} : e ∈ assemble ignored withLocations fs ↔
      (∃ id ∈ fs.map Finding.id, entity? withLocations (ofId id fs) = some e) ∧
        e.visibility ∉ ignored := by
  simp [assemble, ofId, List.mem_eraseDups]

/-- With nothing ignored there is one entity for each identity, in the order of first meeting. -/
theorem assemble_forall₂ (withLocations : Bool) (fs : List Finding) :
    List.Forall₂ (fun id e => entity? withLocations (ofId id fs) = some e)
      (fs.map Finding.id).eraseDups (assemble [] withLocations fs) := by
  have hsome : ∀ id ∈ (fs.map Finding.id).eraseDups, ∃ e, entity? withLocations (ofId id fs) = some e :=
    fun id hid => exists_entity? withLocations (ofId_ne_nil (List.mem_eraseDups.mp hid))
  have hall := filterMap_forall₂ hsome
  have he : assemble [] withLocations fs =
      (fs.map Finding.id).eraseDups.filterMap fun id => entity? withLocations (ofId id fs) := by
    simp [assemble, ofId]
  rw [he]
  exact hall

/-- An entity is called as its first use calls it, or else as its first finding does. -/
theorem merge_names (withLocations : Bool) {group rest : List Finding} {primary : Finding}
    (hpos : group.Pairwise fun a b => a.position ≤ b.position)
    (hs : group.mergeSort precedes = primary :: rest) :
    (merge withLocations primary (primary :: rest)).name =
      ((group.find? (·.role == .usage)).getD primary).name ∧
    (merge withLocations primary (primary :: rest)).localName.getD
        (merge withLocations primary (primary :: rest)).name =
      ((group.find? (·.role == .usage)).getD primary).localName.getD primary.name := by
  have hfind : (primary :: rest).find? (·.role == .usage) = group.find? (·.role == .usage) := by
    rw [← List.head?_filter, ← List.head?_filter, ← hs, filter_role_mergeSort hpos]
  simp only [merge, hfind]
  refine ⟨trivial, ?_⟩
  split_ifs with hl
  · rw [Option.getD_none, beq_iff_eq.mp hl]
  · rfl

/-- The finding at another place. -/
def relocate (position : Finding → Nat) (location : Finding → Option Location) (f : Finding) : Finding :=
  { f with position := position f, location := location f }

/-- The places of findings go into the places of their entity and nowhere else. -/
theorem merge_relocate (position : Finding → Nat) (location : Finding → Option Location) (w w' : Bool)
    (primary : Finding) (group : List Finding) :
    merge w' (primary.relocate position location) (group.map (relocate position location)) =
      { merge w primary group with
        locations := if w' then some (group.filterMap location) else none } := by
  have hshown : ((group.map (relocate position location)).find? (·.role == .usage)).getD
      (primary.relocate position location) =
      ((group.find? (·.role == .usage)).getD primary).relocate position location := by
    rw [List.find?_map, Option.getD_map]
    rfl
  simp only [merge, hshown, exposure, List.findSome?_map, List.foldl_map, List.any_map, List.filterMap_map]
  rfl

/-- Places that stand in the same order put findings in the same order of merging. -/
theorem precedes_relocate {position : Finding → Nat}
    (hp : ∀ a b : Finding, position a ≤ position b ↔ a.position ≤ b.position)
    (location : Finding → Option Location) (a b : Finding) :
    (a.relocate position location).precedes (b.relocate position location) = a.precedes b := by
  rw [Bool.eq_iff_iff, precedes_iff, precedes_iff, ← hp a b]
  rfl

section

variable {position : Finding → Nat} {location : Finding → Option Location} {w w' : Bool}
  {L : Option (List Location) → Option (List Location)}
  (hp : ∀ a b : Finding, position a ≤ position b ↔ a.position ≤ b.position)
  (hL : ∀ group : List Finding, (if w' then some (group.filterMap location) else none) =
    L (if w then some (group.filterMap Finding.location) else none))
include hp hL

theorem entity?_relocate (group : List Finding) : entity? w' (group.map (relocate position location)) =
    (entity? w group).map fun e => { e with locations := L e.locations } := by
  have hsort : (group.map (relocate position location)).mergeSort precedes =
      (group.mergeSort precedes).map (relocate position location) :=
    (List.map_mergeSort fun a _ b _ => (precedes_relocate hp location a b).symm).symm
  unfold entity?
  simp only [hsort, List.head?_map, Option.map_map]
  congr 1
  funext primary
  rw [Function.comp_apply, merge_relocate position location w w', hL]
  rfl

/-- Findings at other places, in the same order, make the same entities at other places. -/
theorem assemble_relocate (ignored : List Visibility) (fs : List Finding) :
    assemble ignored w' (fs.map (relocate position location)) =
      (assemble ignored w fs).map fun e => { e with locations := L e.locations } := by
  have hids : (fs.map (relocate position location)).map Finding.id = fs.map Finding.id := by
    rw [List.map_map]
    rfl
  have hgroup (id : Identity) : (fs.map (relocate position location)).filter (·.id == id) =
      (fs.filter (·.id == id)).map (relocate position location) := by
    rw [List.filter_map]
    rfl
  simp only [assemble, hids, hgroup, entity?_relocate hp hL]
  rw [← List.map_filterMap, List.filter_map]
  rfl

end

theorem assemble_eq_filter (ignored : List Visibility) (w : Bool) (fs : List Finding) :
    assemble ignored w fs = (assemble [] w fs).filter fun e => !ignored.contains e.visibility := by
  simp [assemble]

end Finding

end ComponentDoc
