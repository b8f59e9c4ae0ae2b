import ComponentDoc.Proofs.Document.Assembly
import ComponentDoc.Proofs.Document.Findings

namespace ComponentDoc

open Text

/-- The same request with nothing left out. -/
def Options.unfiltered (options : Options) : Options :=
  { options with ignoredVisibilities := [], withLocations := true }

/-- The entity less its places, unless they are asked for. -/
def Entity.shown (withLocations : Bool) (e : Entity) : Entity :=
  { e with locations := if withLocations then e.locations else none }

/-- The document less the entities of an ignored visibility, and less the places unless they are asked
for. -/
def Document.filtered (ignored : List Visibility) (withLocations : Bool) (doc : Document) : Document :=
  { doc with
    entities := fun kind =>
      ((doc.entities kind).filter fun e => !ignored.contains e.visibility).map
        (Entity.shown withLocations) }

/-- The finding less its place, unless it is asked for. -/
def Finding.shown (withLocations : Bool) : Finding → Finding :=
  relocate Finding.position fun f => if withLocations then f.location else none

/-- Which comment documents what does not depend on the places that are listed. -/
theorem findings_shown (dialect : Dialect) (binder : Comment.Binder) (locate : Span → Option Location)
    (withLocations : Bool) (claimed : List Nat) (os : List Occurrence) :
    findings dialect binder (fun span => if withLocations then locate span else none) claimed os =
      (findings dialect binder locate claimed os).map (Finding.shown withLocations) := by
  induction os generalizing claimed with
  | nil => rfl
  | cons o os ih =>
    rw [findings_cons, findings_cons, List.map_cons, ih]
    rfl

theorem Component.findings_shown (c : Component) (options : Options) (dialect : Dialect) :
    c.findings options dialect =
      (c.findings options.unfiltered dialect).map (List.map (Finding.shown options.withLocations)) := by
  have hlocate : options.locate c =
      fun span => if options.withLocations then options.unfiltered.locate c span else none := rfl
  unfold Component.findings
  rw [hlocate]
  simp only [ComponentDoc.findings_shown]
  change (options.kinds.mapM (dialect.occurrences c) >>= _) =
    (options.kinds.mapM (dialect.occurrences c) >>= _).map _
  cases options.kinds.mapM (dialect.occurrences c) with
  | error e => rfl
  | ok oss => rfl

theorem Finding.assemble_shown (ignored : List Visibility) (withLocations : Bool) (fs : List Finding) :
    assemble ignored withLocations (fs.map (shown withLocations)) =
      ((assemble [] true fs).filter fun e => !ignored.contains e.visibility).map
        (Entity.shown withLocations) := by
  rw [← assemble_eq_filter]
  refine assemble_relocate (w := true) (L := fun places => if withLocations then places else none)
    (fun a b => Iff.rfl) ?_ ignored fs
  intro group
  cases withLocations <;> simp

theorem Options.entities_shown (options : Options) (found : List Finding) (kind : EntityKind) :
    options.entities (found.map (Finding.shown options.withLocations)) kind =
      ((options.unfiltered.entities found kind).filter
        fun e => !options.ignoredVisibilities.contains e.visibility).map
          (Entity.shown options.withLocations) := by
  by_cases hk : kind ∈ options.kinds
  · rw [entities_of_mem hk, @entities_of_mem options.unfiltered _ _ hk]
    rw [List.filter_map]
    exact Finding.assemble_shown _ _ _
  · rw [entities_of_not_mem hk, @entities_of_not_mem options.unfiltered _ _ hk]
    rfl

/-- A request fails just as the one that leaves nothing out does, and else its document is that one's less
what is ignored and less the places that are not asked for. -/
theorem extract_eq_filtered (c : Component) (options : Options) :
    extract c options = (extract c options.unfiltered).map
      (Document.filtered options.ignoredVisibilities options.withLocations) := by
  have hdialect : options.unfiltered.dialect c = options.dialect c := rfl
  unfold extract
  rw [hdialect]
  cases options.dialect c with
  | error e => rfl
  | ok dialect =>
    change (c.findings options dialect >>= _) = (c.findings options.unfiltered dialect >>= _).map _
    rw [c.findings_shown]
    cases c.findings options.unfiltered dialect with
    | error e => rfl
    | ok found =>
      simp only [Except.map, bind, Except.bind, pure, Except.pure, Document.filtered]
      congr 2
      funext kind
      exact options.entities_shown found kind

end ComponentDoc
