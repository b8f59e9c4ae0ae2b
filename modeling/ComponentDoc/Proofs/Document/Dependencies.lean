import ComponentDoc.Proofs.Document.Assembly
import ComponentDoc.Proofs.Document.Findings

namespace ComponentDoc

namespace Finding

/-- The entity that assembling makes of the findings of an identity. -/
def IsEntityOf (withLocations : Bool) (fs : List Finding) (id : Identity) (e : Entity) : Prop :=
  (id, e) ∈ (fs.map Finding.id).eraseDups.zip (assemble [] withLocations fs)

/-- The first finding of an identity in the order of merging: a declaration where there is one, by position,
and of those at the same place the one that is listed first. -/
def IsPrimary (fs : List Finding) (id : Identity) (primary : Finding) : Prop :=
  IsFirst precedes (ofId id fs) primary

variable {withLocations : Bool} {fs : List Finding} {id : Identity}

theorem entity?_of_isEntityOf {e : Entity} (h : IsEntityOf withLocations fs id e) :
    entity? withLocations (ofId id fs) = some e :=
  (List.forall₂_iff_zip.mp (assemble_forall₂ withLocations fs)).2 h

theorem existsUnique_isEntityOf {f : Finding} (hf : f ∈ fs) : ∃! e, IsEntityOf withLocations fs f.id e := by
  have hid : f.id ∈ (fs.map Finding.id).eraseDups := List.mem_eraseDups.mpr (List.mem_map_of_mem hf)
  obtain ⟨e, he⟩ := exists_mem_zip_of_forall₂ (assemble_forall₂ withLocations fs) hid
  refine ⟨e, he, fun e' he' => ?_⟩
  have hsome := (entity?_of_isEntityOf he').symm.trans (entity?_of_isEntityOf he)
  exact Option.some.inj hsome

theorem exists_isPrimary {e : Entity} (h : IsEntityOf withLocations fs id e) :
    ∃ primary, IsPrimary fs id primary ∧ e.dependencies = primary.dependencies := by
  obtain ⟨primary, rest, hs, rfl⟩ := entity?_eq_some_iff.mp (entity?_of_isEntityOf h)
  exact ⟨primary, isFirst_of_mergeSort_eq_cons precedes_trans precedes_total hs, rfl⟩

theorem dependencies_eq_of_isPrimary {e : Entity} (h : IsEntityOf withLocations fs id e) {primary : Finding}
    (hp : IsPrimary fs id primary) : e.dependencies = primary.dependencies := by
  obtain ⟨primary', hp', hdependencies⟩ := exists_isPrimary h
  rw [hdependencies, hp'.unique hp]

/-- With nothing ignored each identity that is found has one entity, which depends on what the first finding of
the identity depends on. So no dependency of a finding is lost just when the first finding of its identity has
all of them. -/
theorem dependencies_kept_iff_primary (withLocations : Bool) (fs : List Finding) :
    (∀ f ∈ fs, ∃! e, IsEntityOf withLocations fs f.id e) ∧
    (∀ id e, IsEntityOf withLocations fs id e →
      ∃ primary, IsPrimary fs id primary ∧ e.dependencies = primary.dependencies) ∧
    ((∀ f ∈ fs, ∀ e, IsEntityOf withLocations fs f.id e → ∀ name ∈ f.dependencies, name ∈ e.dependencies) ↔
      ∀ f ∈ fs, ∀ primary, IsPrimary fs f.id primary →
        ∀ name ∈ f.dependencies, name ∈ primary.dependencies) := by
  refine ⟨fun f hf => existsUnique_isEntityOf hf, fun id e he => exists_isPrimary he, ?_, ?_⟩
  · intro hall f hf primary hp name hname
    obtain ⟨e, he, _⟩ := existsUnique_isEntityOf hf
    rw [← dependencies_eq_of_isPrimary he hp]
    exact hall f hf e he name hname
  · intro hall f hf e he name hname
    obtain ⟨primary, hp, hdependencies⟩ := exists_isPrimary he
    rw [hdependencies]
    exact hall f hf primary hp name hname

end Finding

def recomputedSource : List Char := "<script>let a,b;$:c=a;$:c=b</script>".toList

def allComputed : Options where
  features := [.computed]
  ignoredVisibilities := []

theorem exists_recomputed : ∃ c os, Component.parse recomputedSource none = .ok c ∧
    allComputed.dialect c = .ok .v3 ∧ Dialect.v3.occurrences c .computed = .ok os ∧
    (os.map fun o => (o.id, o.role, o.dependencies)) =
      [(.declared 0 "c", .declaration, ["a"]), (.declared 0 "c", .usage, ["b"])] := by
  have h : (Component.parse recomputedSource none).toOption.map (fun c => (Dialect.detect c,
      (Dialect.v3.occurrences c .computed).toOption.map fun os =>
        decide ((os.map fun o => (o.id, o.role, o.dependencies)) =
          [(.declared 0 "c", .declaration, ["a"]), (.declared 0 "c", .usage, ["b"])]))) =
      some (.v3, some true) := by
    decide +kernel
  obtain ⟨c, hparse, h⟩ := Option.map_eq_some_iff.mp h
  obtain ⟨hdialect, h⟩ := Prod.mk.inj h
  obtain ⟨os, hos, h⟩ := Option.map_eq_some_iff.mp h
  exact ⟨c, os, toOption_eq_some_iff.mp hparse, congrArg Except.ok hdialect, toOption_eq_some_iff.mp hos,
    of_decide_eq_true h⟩

/-- The second `$:` statement depends on `b`, and the entity does not. -/
theorem later_dependency_lost : ∃ c found, Component.parse recomputedSource none = .ok c ∧
    allComputed.dialect c = .ok .v3 ∧ c.findings allComputed .v3 = .ok found ∧
    ∃ f ∈ found.filter (·.kind == .computed), "b" ∈ f.dependencies ∧
      ∃ e, Finding.IsEntityOf false (found.filter (·.kind == .computed)) f.id e ∧ "b" ∉ e.dependencies := by
  obtain ⟨c, os, hparse, hd, hos, hdata⟩ := exists_recomputed
  obtain ⟨found, hfound⟩ : ∃ found, c.findings allComputed .v3 = .ok found :=
    ⟨_, bind_eq_ok_iff.mpr ⟨[os], mapM_eq_ok_iff.mpr (.cons hos .nil), rfl⟩⟩
  have hk : EntityKind.computed ∈ allComputed.kinds := by decide
  obtain ⟨os', sorted, hos', hperm, _, hof⟩ := c.findings_of_kind hfound hk
  obtain rfl : os' = os := Except.ok.inj (hos'.symm.trans hos)
  have hfs (p : Identity × Role × List String) :
      p ∈ ((found.filter (·.kind == .computed)).map fun f => (f.id, f.role, f.dependencies)) ↔
        p = (.declared 0 "c", .declaration, ["a"]) ∨ p = (.declared 0 "c", .usage, ["b"]) := by
    have hmap := map_eq_map_of_forall₂ (g := fun f => (f.id, f.role, f.dependencies))
      (f := fun o => (o.id, o.role, o.dependencies)) hof fun hf => by
        rw [hf.id_eq, hf.role_eq, hf.dependencies_eq]
    rw [hmap, (hperm.map _).mem_iff, hdata]
    simp
  obtain ⟨d, hd', hddata⟩ := List.mem_map.mp ((hfs _).mpr (.inl rfl))
  obtain ⟨u, hu, hudata⟩ := List.mem_map.mp ((hfs _).mpr (.inr rfl))
  simp only [Prod.mk.injEq] at hddata hudata
  obtain ⟨e, he, _⟩ : ∃! e, Finding.IsEntityOf false (found.filter (·.kind == .computed)) u.id e :=
    Finding.existsUnique_isEntityOf hu
  refine ⟨c, found, hparse, hd, hfound, u, hu, by simp [hudata], e, he, ?_⟩
  obtain ⟨primary, rest, hs, rfl⟩ := Finding.entity?_eq_some_iff.mp (Finding.entity?_of_isEntityOf he)
  -- The first `$:` statement declares the value, so that the findings have a declaration in front.
  have hdin : d ∈ Finding.ofId u.id (found.filter (·.kind == .computed)) :=
    List.mem_filter.mpr ⟨hd', by simp [hddata, hudata]⟩
  have hrole := (Finding.head_of_declaration hs hdin hddata.2.1).1
  have hm : primary ∈ found.filter (·.kind == .computed) :=
    (List.mem_filter.mp ((Finding.mem_of_mergeSort_eq hs).mp List.mem_cons_self)).1
  have hprimary := (hfs _).mp (List.mem_map_of_mem hm)
  simp only [Prod.mk.injEq] at hprimary
  rcases hprimary with ⟨_, _, hdeps⟩ | ⟨_, husage, _⟩
  · simp [Finding.merge, hdeps]
  · rw [hrole] at husage
    cases husage

end ComponentDoc
