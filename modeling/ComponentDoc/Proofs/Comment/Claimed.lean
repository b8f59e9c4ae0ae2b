import ComponentDoc.Proofs.Comment.Exclusive
import ComponentDoc.Proofs.Comment.Nearest

namespace ComponentDoc.Comment.Binder

open Text

/-- No comment was bound, or the start was claimed already. -/
def Answer.IsRefusal (answer : Answer) : Prop :=
  answer = .doc none ∨ answer = .isFree false

theorem step_doc_eq {b : Binder} {claimed : List Nat} {op : Op} {doc : Option Doc}
    (h : (b.step claimed op).1 = .doc doc) :
    doc = docOf? (b.taken claimed op) ∧
      (b.step claimed op).2 = (b.taken claimed op).map (·.span.start) ++ claimed := by
  cases op with
  | bind anchors =>
    simp only [step, bind_eq, Prod.map_fst, Prod.map_snd, id_eq, Answer.doc.injEq] at h ⊢
    exact ⟨h.symm, trivial⟩
  | trailing stop =>
    simp only [step, bindTrailing_eq, Prod.map_fst, Prod.map_snd, id_eq, Answer.doc.injEq] at h ⊢
    exact ⟨h.symm, trivial⟩
  | claim start => cases h

/-- A use that gives nothing back leaves the claimed starts as they were. -/
theorem step_of_isRefusal {b : Binder} {claimed : List Nat} {op : Op}
    (h : (b.step claimed op).1.IsRefusal) : (b.step claimed op).2 = claimed := by
  rcases h with h | h
  · obtain ⟨hdoc, hstep⟩ := step_doc_eq h
    have hnone : b.taken claimed op = [] := docOf?_eq_none_iff.mp hdoc.symm
    rw [hstep, hnone, List.map_nil, List.nil_append]
  · cases op with
    | bind anchors => cases h
    | trailing stop => cases h
    | claim start =>
      by_cases hc : start ∈ claimed
      · simp [step, claim, hc]
      · simp [step, claim, hc] at h

theorem mem_of_follower? {b : Binder} {stop : Nat} {c : Source} (h : b.follower? stop = some c) :
    c ∈ b.comments := by
  unfold follower? at h
  cases hd : b.startingFrom stop with
  | nil => simp [hd] at h
  | cons d rest =>
    simp only [hd] at h
    cases hs : slice? b.source stop d.span.start with
    | none => simp [hs] at h
    | some gap =>
      simp only [hs] at h
      split_ifs at h
      obtain rfl : d = c := Option.some.inj h
      have hm : d ∈ b.startingFrom stop := by
        rw [hd]
        exact List.mem_cons_self
      exact List.mem_of_mem_drop hm

/-- The comments that a use takes follow each other. -/
theorem taken_isInfix (b : Binder) (claimed : List Nat) (op : Op) : b.taken claimed op <:+: b.comments := by
  cases op with
  | bind anchors =>
    cases hn : b.nearest? anchors with
    | none => simp [taken, hn]
    | some found =>
      obtain ⟨c, above⟩ := found
      obtain ⟨anchor, _, hbefore⟩ := List.exists_of_findSome?_eq_some hn
      obtain ⟨rest, hcomments⟩ := before?_split hbefore
      have hrow : b.group c above <:+ above.reverse ++ [c] := by
        have hrun := b.isLongestRun_group c above.reverse
        rw [List.reverse_reverse] at hrun
        exact hrun.1.row
      have hfront : above.reverse ++ [c] <+: b.comments := by
        rw [hcomments]
        exact ⟨rest, by simp⟩
      by_cases hc : c.span.start ∈ claimed
      · simp [taken, hn, hc]
      · have ht : b.taken claimed (.bind anchors) = b.group c above := by simp [taken, hn, hc]
        rw [ht]
        exact hrow.isInfix.trans hfront.isInfix
  | trailing stop =>
    cases hf : b.follower? stop with
    | none => simp [taken, hf]
    | some c =>
      by_cases hc : c.span.start ∈ claimed
      · simp [taken, hf, hc]
      · obtain ⟨before, after, hcomments⟩ := List.append_of_mem (mem_of_follower? hf)
        have ht : b.taken claimed (.trailing stop) = [c] := by simp [taken, hf, hc]
        rw [ht, hcomments]
        exact ⟨before, after, by simp⟩
  | claim start => exact List.nil_infix

/-- Where a use has taken something, the comment that it is about is claimed, and it takes nothing more. -/
theorem taken_step_eq_nil (b : Binder) (claimed : List Nat) (op : Op) :
    b.taken (b.step claimed op).2 op = [] := by
  cases op with
  | bind anchors =>
    cases hn : b.nearest? anchors with
    | none => simp [taken, hn]
    | some found =>
      obtain ⟨c, above⟩ := found
      have hc : c.span.start ∈ (b.step claimed (.bind anchors)).2 := by
        rw [mem_step]
        by_cases hm : c.span.start ∈ claimed
        · exact .inr hm
        · have hg : c ∈ b.group c above := mem_group.mpr (.inl rfl)
          left
          simp only [marks, taken, hn, List.contains_iff_mem, hm, if_false]
          exact List.mem_map_of_mem hg
      simp [taken, hn, hc]
  | trailing stop =>
    cases hf : b.follower? stop with
    | none => simp [taken, hf]
    | some c =>
      have hc : c.span.start ∈ (b.step claimed (.trailing stop)).2 := by
        rw [mem_step]
        by_cases hm : c.span.start ∈ claimed
        · exact .inr hm
        · left
          simp [marks, taken, hf, hm]
      simp [taken, hf, hc]
  | claim start => rfl

/-- A use that gave a comment back gives none when it is repeated. -/
theorem step_step_eq {b : Binder} {claimed : List Nat} {op : Op} {doc : Option Doc}
    (h : (b.step claimed op).1 = .doc doc) :
    b.step (b.step claimed op).2 op = (.doc none, (b.step claimed op).2) := by
  obtain ⟨again, ha⟩ : ∃ again, (b.step (b.step claimed op).2 op).1 = .doc again := by
    cases op with
    | bind anchors => exact ⟨_, rfl⟩
    | trailing stop => exact ⟨_, rfl⟩
    | claim start => cases h
  obtain ⟨hdoc, hstep⟩ := step_doc_eq ha
  rw [taken_step_eq_nil] at hdoc hstep
  apply Prod.ext
  · rw [ha, hdoc]
    rfl
  · exact hstep

theorem mem_marks_iff {b : Binder} {claimed : List Nat} {op : Op} {x : Nat} :
    x ∈ b.marks claimed op ↔ op = .claim x ∨ ∃ c ∈ b.taken claimed op, c.span.start = x := by
  cases op with
  | bind anchors => simp [marks]
  | trailing stop => simp [marks]
  | claim start => simp [marks, taken, eq_comm]

/-- The starts claimed after a run, by what it was asked to claim and what it gave back. -/
theorem mem_after_iff {b : Binder} {claimed : List Nat} {ops : List Op} {x : Nat} :
    x ∈ b.after claimed ops ↔ x ∈ claimed ∨ .claim x ∈ ops ∨
      ∃ e ∈ b.trace claimed ops, ∃ c ∈ e.taken, c.span.start = x := by
  rw [mem_after]
  apply or_congr_right
  constructor
  · rintro ⟨e, he, hx⟩
    obtain ⟨before, op, rest, hops, rfl⟩ := mem_trace.mp he
    rcases mem_marks_iff.mp hx with rfl | htaken
    · left
      rw [hops]
      simp
    · exact .inr ⟨_, he, htaken⟩
  · rintro (hclaim | ⟨e, he, htaken⟩)
    · obtain ⟨before, rest, hops⟩ := List.append_of_mem hclaim
      have he : b.event (b.after claimed before) (.claim x) ∈ b.trace claimed ops :=
        mem_trace.mpr ⟨before, .claim x, rest, hops, rfl⟩
      exact ⟨_, he, List.mem_singleton_self x⟩
    · obtain ⟨before, op, rest, _, rfl⟩ := mem_trace.mp he
      exact ⟨_, he, mem_marks_iff.mpr (.inr htaken)⟩

/-- A use that gives nothing back changes nothing; one that gives a comment back claims just the starts of
the comments it is made of, and gives none when it is repeated. So the starts claimed after a run are those
from before, those it was asked to claim and those of the comments it gave back. -/
theorem claimed_by_uses (b : Binder) :
    (∀ claimed op, (b.step claimed op).1.IsRefusal → (b.step claimed op).2 = claimed) ∧
    (∀ claimed op doc, (b.step claimed op).1 = .doc (some doc) →
      (b.taken claimed op ≠ [] ∧ b.taken claimed op <:+: b.comments ∧
        doc = Doc.parse (joinLines ((b.taken claimed op).map Source.text))) ∧
      (∀ x, x ∈ (b.step claimed op).2 ↔ x ∈ claimed ∨ ∃ c ∈ b.taken claimed op, c.span.start = x) ∧
      b.step (b.step claimed op).2 op = (.doc none, (b.step claimed op).2)) ∧
    ∀ claimed ops x, x ∈ b.after claimed ops ↔ x ∈ claimed ∨ .claim x ∈ ops ∨
      ∃ e ∈ b.trace claimed ops, ∃ c ∈ e.taken, c.span.start = x := by
  refine ⟨fun claimed op => step_of_isRefusal, ?_, fun claimed ops x => mem_after_iff⟩
  intro claimed op doc h
  obtain ⟨hdoc, hstep⟩ := step_doc_eq h
  have hne : b.taken claimed op ≠ [] := by
    intro hnil
    rw [hnil] at hdoc
    cases hdoc
  refine ⟨⟨hne, b.taken_isInfix claimed op, ?_⟩, ?_, step_step_eq h⟩
  · rw [docOf?_of_ne_nil hne] at hdoc
    exact Option.some.inj hdoc
  · intro x
    rw [hstep, List.mem_append, List.mem_map, or_comm]

/-- The comment behind the code is claimed, and cannot be claimed again; the one below it gives both back,
once. -/
theorem claimed_by_uses_codeAndTwoLines :
    (codeAndTwoLines.step [3] (.claim 3)).1 = .isFree false ∧
    (codeAndTwoLines.step [3] (.claim 3)).2 = [3] ∧
    (codeAndTwoLines.step [3] (.bind [13])).1 = .doc (some ⟨some "x\ny", []⟩) ∧
    (∀ x, x ∈ (codeAndTwoLines.step [3] (.bind [13])).2 ↔ x = 3 ∨ x = 8) ∧
    (codeAndTwoLines.step (codeAndTwoLines.step [3] (.bind [13])).2 (.bind [13])).1 = .doc none ∧
    5 ∈ codeAndTwoLines.after [] [.trailing 1, .claim 5, .bind [13]] := by
  obtain ⟨hrefusal, hgiven, hrun⟩ := claimed_by_uses codeAndTwoLines
  have hfree : (codeAndTwoLines.step [3] (.claim 3)).1 = .isFree false := by decide
  have hbind : (codeAndTwoLines.step [3] (.bind [13])).1 = .doc (some ⟨some "x\ny", []⟩) := by decide
  obtain ⟨_, hadded, hagain⟩ := hgiven [3] (.bind [13]) _ hbind
  have hstarts : (codeAndTwoLines.taken [3] (.bind [13])).map (·.span.start) = [3, 8] := by decide
  refine ⟨hfree, hrefusal [3] (.claim 3) (.inr hfree), hbind, ?_, ?_, ?_⟩
  · intro x
    rw [hadded, ← List.mem_map, hstarts]
    simp
  · rw [hagain]
  · exact (hrun [] _ 5).mpr (.inr (.inl (by decide)))

end ComponentDoc.Comment.Binder
