import ComponentDoc.Proofs.Script.References

/-!
Where code stands in a syntax tree. A site is the way to a place from the top: the number of a tree, of a child in
it, of a child of that, and so on. In the order of sites an outer place comes before what stands in it, and what
stands in one child before what stands in the next. What a reader meets is told by sites alone: each place that
can be met is met once, in this order, with what stands around it.
-/
namespace ComponentDoc.Script

/-- The places from a site up to the top, innermost first. -/
def Node.chainAt? : Node → List Node → List Nat → Option (List Node)
  | n, around, [] => some (n :: around)
  | n, around, i :: rest => n.children[i]?.bind fun c => c.chainAt? (n :: around) rest

/-- The places from a site in one of several trees up to the top, innermost first. -/
def chainIn? (around nodes : List Node) : List Nat → Option (List Node)
  | [] => none
  | i :: rest => nodes[i]?.bind fun n => n.chainAt? around rest

/-- Where an expression statement starts. -/
def Node.statementStart? : Node → Option Nat
  | .stmt (.expr start _) => some start
  | _ => none

/-- The start of the innermost expression statement among some places. -/
def statementAround? (around : List Node) : Option Nat :=
  around.findSome? Node.statementStart?

/-- The innermost of some places is a link of a chain that may be cut short. -/
def isInChain : List Node → Bool
  | .expr (.optional _) :: _ => true
  | _ => false

/-- What is met at the innermost of some places: an identifier, or a call that is no link of a chain. -/
def visitAt? : List Node → Option Visit
  | .ident id :: _ => some (.ident id)
  | .expr (.call callee arguments _) :: around =>
    if isInChain around then none else some (.call (statementAround? around) callee arguments)
  | _ => none

theorem statementAround?_cons (n : Node) (around : List Node) :
    statementAround? (n :: around) = n.statement (statementAround? around) := by
  cases n with
  | stmt t => cases t <;> rfl
  | _ => rfl

/-- What a reader meets in a place that stands in others: a call that is a link is passed over. -/
def Node.visitsIn (around : List Node) (n : Node) : List Visit :=
  match n with
  | .expr (.call callee arguments types) =>
    if isInChain around then
      (Node.expr (.call callee arguments types)).children.flatMap (·.visits (statementAround? around))
    else (Node.expr (.call callee arguments types)).visits (statementAround? around)
  | n => n.visits (statementAround? around)

theorem Node.visitsIn_of_not_isInChain {around : List Node} (h : isInChain around = false) (n : Node) :
    n.visitsIn around = n.visits (statementAround? around) := by
  unfold visitsIn
  split
  · rw [h]
    rfl
  · rfl

namespace Node

theorem flatMap_visitsIn {n : Node} {around : List Node} (h : isInChain (n :: around) = false) (cs : List Node) :
    cs.flatMap (·.visitsIn (n :: around)) = cs.flatMap (·.visits (n.statement (statementAround? around))) := by
  refine congrArg (List.flatMap · cs) (funext fun c => ?_)
  rw [visitsIn_of_not_isInChain h, statementAround?_cons]

/-- One step into the tree: a reader meets a place, and then what stands in it. -/
theorem visitsIn_eq (n : Node) (around : List Node) :
    n.visitsIn around = (visitAt? (n :: around)).toList ++ n.children.flatMap (·.visitsIn (n :: around)) := by
  by_cases hn : n.IsOptionalCall
  · obtain ⟨callee, arguments, types, rfl⟩ := hn
    have hlink : (Node.expr (.optional (.call callee arguments types))).children =
        [.expr (.call callee arguments types)] := rfl
    rw [hlink, List.flatMap_singleton]
    exact visits_optional_call callee arguments types (statementAround? around)
  · cases n with
    | expr e =>
      cases e with
      | call callee arguments types =>
        rw [flatMap_visitsIn rfl, visitsIn, visitAt?]
        split
        · rfl
        · exact visits_eq hn _
      | optional link =>
        -- Under a link only a call is read in a way of its own, and this link is none.
        have hinner : (Node.expr link).visitsIn (.expr (.optional link) :: around) =
            (Node.expr link).visits (statementAround? around) := by
          cases link with
          | call callee arguments types => exact absurd ⟨callee, arguments, types, rfl⟩ hn
          | _ => rfl
        have hlink : (Node.expr (.optional link)).children = [.expr link] := rfl
        rw [hlink, List.flatMap_singleton, hinner]
        exact (visits_eq hn _).trans (by rw [hlink, List.flatMap_singleton]; rfl)
      | _ =>
        rw [flatMap_visitsIn rfl]
        exact visits_eq hn _
    | _ =>
      rw [flatMap_visitsIn rfl]
      exact visits_eq hn _

end Node

/-- What is met at the sites where something can be met, in the order of sites. -/
structure ListsSites (chainOf : List Nat → Option (List Node)) (entries : List (List Nat × Visit)) : Prop where
  ordered : entries.Pairwise fun a b => a.1 < b.1
  mem_iff : ∀ site visit, (site, visit) ∈ entries ↔ (chainOf site).bind visitAt? = some visit

/-- The sites of one more tree in front of others, which are numbered one higher. -/
def consSites (first rest : List (List Nat × Visit)) : List (List Nat × Visit) :=
  first.map (fun p => (0 :: p.1, p.2)) ++ rest.map (fun p => (p.1.modifyHead (· + 1), p.2))

theorem ListsSites.cons {around nodes : List Node} {n : Node} {first rest : List (List Nat × Visit)}
    (hfirst : ListsSites (n.chainAt? around) first) (hrest : ListsSites (chainIn? around nodes) rest) :
    ListsSites (chainIn? around (n :: nodes)) (consSites first rest) := by
  have hsite {p : List Nat × Visit} (hp : p ∈ rest) : ∃ i site, p.1 = i :: site := by
    have hmem := (hrest.mem_iff p.1 p.2).mp hp
    cases hcase : p.1 with
    | nil => rw [hcase] at hmem; cases hmem
    | cons i site => exact ⟨i, site, rfl⟩
  constructor
  · refine List.pairwise_append.mpr ⟨?_, ?_, ?_⟩
    · refine List.pairwise_map.mpr (hfirst.ordered.imp fun h => ?_)
      exact List.cons_lt_cons_iff.mpr (.inr ⟨rfl, h⟩)
    · refine List.pairwise_map.mpr (hrest.ordered.imp_of_mem fun ha hb h => ?_)
      obtain ⟨i, site, hi⟩ := hsite ha
      obtain ⟨j, site', hj⟩ := hsite hb
      rw [hi, hj] at h ⊢
      rcases List.cons_lt_cons_iff.mp h with hlt | ⟨rfl, hlt⟩
      · exact List.cons_lt_cons_iff.mpr (.inl (Nat.succ_lt_succ hlt))
      · exact List.cons_lt_cons_iff.mpr (.inr ⟨rfl, hlt⟩)
    · intro a ha b hb
      obtain ⟨p, -, rfl⟩ := List.mem_map.mp ha
      obtain ⟨q, hq, rfl⟩ := List.mem_map.mp hb
      obtain ⟨i, site, hi⟩ := hsite hq
      rw [hi]
      exact List.cons_lt_cons_iff.mpr (.inl (Nat.succ_pos i))
  · intro site visit
    rw [consSites, List.mem_append]
    cases site with
    | nil =>
      simp only [chainIn?, Option.bind_none, reduceCtorEq, iff_false, not_or]
      constructor
      · simp
      · intro hm
        obtain ⟨p, hp, heq⟩ := List.mem_map.mp hm
        obtain ⟨i, site, hi⟩ := hsite hp
        rw [hi] at heq
        cases heq
    | cons i site =>
      cases i with
      | zero =>
        rw [chainIn?, List.getElem?_cons_zero, Option.bind_some, ← hfirst.mem_iff]
        constructor
        · rintro (hm | hm)
          · obtain ⟨p, hp, heq⟩ := List.mem_map.mp hm
            cases heq
            exact hp
          · obtain ⟨p, hp, heq⟩ := List.mem_map.mp hm
            obtain ⟨i, site, hi⟩ := hsite hp
            rw [hi] at heq
            cases heq
        · intro hm
          exact .inl (List.mem_map.mpr ⟨_, hm, rfl⟩)
      | succ i =>
        have hchain : chainIn? around (n :: nodes) ((i + 1) :: site) = chainIn? around nodes (i :: site) := rfl
        rw [hchain, ← hrest.mem_iff]
        constructor
        · rintro (hm | hm)
          · obtain ⟨p, hp, heq⟩ := List.mem_map.mp hm
            cases heq
          · obtain ⟨⟨place, visit'⟩, hp, heq⟩ := List.mem_map.mp hm
            obtain ⟨j, site', rfl⟩ := hsite hp
            cases heq
            exact hp
        · intro hm
          exact .inr (List.mem_map.mpr ⟨_, hm, rfl⟩)

theorem map_snd_consSites (first rest : List (List Nat × Visit)) :
    (consSites first rest).map (·.2) = first.map (·.2) ++ rest.map (·.2) := by
  simp [consSites, Function.comp_def]

/-- The sites of several trees, if those of each are known. -/
theorem exists_listsSites_of_forall (around nodes : List Node)
    (h : ∀ n ∈ nodes, ∃ entries, ListsSites (n.chainAt? around) entries ∧ entries.map (·.2) = n.visitsIn around) :
    ∃ entries, ListsSites (chainIn? around nodes) entries ∧
      entries.map (·.2) = nodes.flatMap (·.visitsIn around) := by
  induction nodes with
  | nil =>
    refine ⟨[], ⟨.nil, fun site visit => ?_⟩, rfl⟩
    cases site <;> simp [chainIn?]
  | cons n nodes ih =>
    obtain ⟨first, hfirst, hvisits⟩ := h n List.mem_cons_self
    obtain ⟨rest, hrest, hvisits'⟩ := ih fun m hm => h m (List.mem_cons_of_mem _ hm)
    refine ⟨consSites first rest, hfirst.cons hrest, ?_⟩
    rw [map_snd_consSites, hvisits, hvisits', List.flatMap_cons]

/-- A reader of a tree meets what can be met in it, site by site. -/
theorem Node.exists_listsSites (n : Node) (around : List Node) :
    ∃ entries, ListsSites (n.chainAt? around) entries ∧ entries.map (·.2) = n.visitsIn around := by
  obtain ⟨below, hbelow, hvisits⟩ := exists_listsSites_of_forall (n :: around) n.children fun c hc =>
    c.exists_listsSites (n :: around)
  have hnil (visit : Visit) : ([], visit) ∉ below := by
    rw [hbelow.mem_iff]
    simp [chainIn?]
  refine ⟨(visitAt? (n :: around)).toList.map ([], ·) ++ below, ⟨?_, fun site visit => ?_⟩, ?_⟩
  · refine List.pairwise_append.mpr ⟨?_, hbelow.ordered, ?_⟩
    · cases visitAt? (n :: around) <;> simp
    · intro a ha b hb
      obtain ⟨visit, -, rfl⟩ := List.mem_map.mp ha
      obtain ⟨site, visit'⟩ := b
      cases site with
      | nil => exact absurd hb (hnil visit')
      | cons i site => exact List.nil_lt_cons i site
  · rw [List.mem_append]
    cases site with
    | nil => simp [chainAt?, hnil]
    | cons i site =>
      have hchain : n.chainAt? around (i :: site) = chainIn? (n :: around) n.children (i :: site) := rfl
      rw [hchain, ← hbelow.mem_iff]
      simp
  · rw [List.map_append, hvisits, visitsIn_eq n around, List.map_map]
    exact congrArg (· ++ _) (List.map_id _)
termination_by sizeOf n
decreasing_by exact sizeOf_lt_of_mem_children hc

/-- A reader of code meets what can be met in it, site by site. -/
theorem exists_listsSites (nodes : List Node) : ∃ entries, ListsSites (chainIn? [] nodes) entries ∧
    entries.map (·.2) = nodes.flatMap (·.visits none) := by
  obtain ⟨entries, hlists, hvisits⟩ :=
    exists_listsSites_of_forall [] nodes fun n _ => n.exists_listsSites []
  refine ⟨entries, hlists, hvisits.trans (congrArg (List.flatMap · nodes) (funext fun n => ?_))⟩
  exact Node.visitsIn_of_not_isInChain rfl n

end ComponentDoc.Script
