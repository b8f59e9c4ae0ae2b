import ComponentDoc.Proofs.Comment.Run

/-!
Which comments document more than one thing. A use of a binder looks at the claimed starts for one
comment only, but takes with it the line comments above, claimed or not. So a text is given back a second
time exactly when a free line comment stands right under one that is claimed; where no line comment
stands right under another, no run gives a text back twice.
-/
namespace ComponentDoc.Comment.Binder

open Text

/-- Comments in a row, no two of which start at the same place. -/
def Ordered (b : Binder) : Prop :=
  b.InRow ∧ (b.comments.map (·.span.start)).Nodup

instance (b : Binder) : Decidable b.Ordered :=
  inferInstanceAs (Decidable (_ ∧ _))

/-- A use takes no comment that an earlier one marked. -/
def Event.Apart (e f : Event) : Prop :=
  ∀ c ∈ f.taken, c.span.start ∉ e.marks

instance (e f : Event) : Decidable (e.Apart f) :=
  inferInstanceAs (Decidable (∀ c ∈ f.taken, c.span.start ∉ e.marks))

/-- In a run that starts with nothing claimed, no comment is given back again, nor after being claimed. -/
def Exclusive (b : Binder) (ops : List Op) : Prop :=
  (b.trace [] ops).Pairwise Event.Apart

instance (b : Binder) (ops : List Op) : Decidable (b.Exclusive ops) :=
  inferInstanceAs (Decidable ((b.trace [] ops).Pairwise Event.Apart))

/-- The comment before the places is free, but it counts as one with a claimed line above it. -/
def ReachesBack (b : Binder) (claimed : List Nat) : Op → Prop
  | .bind anchors => ∃ c earlier, b.nearest? anchors = some (c, earlier) ∧
      c.span.start ∉ claimed ∧ c.style = .line ∧ ∃ d ∈ b.linesAbove c earlier, d.span.start ∈ claimed
  | _ => False

/-- A use takes only free comments unless it reaches back. -/
theorem taken_free_iff (b : Binder) (claimed : List Nat) (op : Op) :
    (∀ c ∈ b.taken claimed op, c.span.start ∉ claimed) ↔ ¬ b.ReachesBack claimed op := by
  constructor
  · intro hfree hr
    cases op with
    | bind anchors =>
      obtain ⟨c, earlier, hn, hc, hl, d, hd, hm⟩ := hr
      have ht : b.taken claimed (.bind anchors) = b.group c earlier := by simp [taken, hn, hc]
      have hg : d ∈ b.taken claimed (.bind anchors) := by
        rw [ht]
        exact mem_group.mpr (Or.inr ⟨hl, hd⟩)
      exact hfree d hg hm
    | trailing stop => exact hr
    | claim start => exact hr
  · intro hr c hc hm
    rcases mem_taken hc with hf | ⟨anchors, d, earlier, rfl, hn, hd, hl, ha⟩
    · exact hf hm
    · exact hr ⟨d, earlier, hn, hd, hl, c, ha, hm⟩

/-- A claimed comment that is taken once more is a line comment. -/
theorem taken_claimed_style {b : Binder} {claimed : List Nat} {op : Op} {c : Source}
    (hc : c ∈ b.taken claimed op) (hm : c.span.start ∈ claimed) : c.style = .line := by
  rcases mem_taken hc with hf | ⟨_, _, _, _, _, _, _, ha⟩
  · exact absurd hm hf
  · exact linesAbove_style ha

/-- What all uses of a run take is related to what is claimed when they take it just as to what the run
has marked by then: the step from one use to the next moves the marks of the first into the claimed. -/
theorem trace_pairwise_iff (b : Binder) (P : Source → Prop) (claimed : List Nat) (ops : List Op) :
    ((∀ e ∈ b.trace claimed ops, ∀ c ∈ e.taken, c.span.start ∈ claimed → P c) ∧
      (b.trace claimed ops).Pairwise fun e f => ∀ c ∈ f.taken, c.span.start ∈ e.marks → P c) ↔
    ∀ before op rest, ops = before ++ op :: rest →
      ∀ c ∈ b.taken (b.after claimed before) op, c.span.start ∈ b.after claimed before → P c := by
  induction ops generalizing claimed with
  | nil => simp [trace]
  | cons op ops ih =>
    have hsplit : (∀ before o rest, op :: ops = before ++ o :: rest →
        ∀ c ∈ b.taken (b.after claimed before) o, c.span.start ∈ b.after claimed before → P c) ↔
        (∀ c ∈ b.taken claimed op, c.span.start ∈ claimed → P c) ∧
        ∀ before o rest, ops = before ++ o :: rest →
          ∀ c ∈ b.taken (b.after (b.step claimed op).2 before) o,
            c.span.start ∈ b.after (b.step claimed op).2 before → P c := by
      constructor
      · intro h
        exact ⟨h [] op ops rfl, fun before o rest he => h (op :: before) o rest (by rw [he]; rfl)⟩
      · rintro ⟨h0, h⟩ before o rest he
        cases before with
        | nil =>
          obtain ⟨rfl, rfl⟩ := List.cons.inj he
          exact h0
        | cons p before =>
          obtain ⟨rfl, he'⟩ := List.cons.inj he
          exact h before o rest he'
    rw [hsplit, ← ih]
    simp only [trace, List.pairwise_cons, List.mem_cons, forall_eq_or_imp, mem_step]
    constructor
    · rintro ⟨⟨h0, hrest⟩, hhead, hp⟩
      refine ⟨h0, ?_, hp⟩
      rintro e he c hc (hm | hm)
      · exact hhead e he c hc hm
      · exact hrest e he c hc hm
    · rintro ⟨h0, hrest, hp⟩
      exact ⟨⟨h0, fun e he c hc hm => hrest e he c hc (Or.inr hm)⟩,
        fun e he c hc hm => hrest e he c hc (Or.inl hm), hp⟩

/-- With nothing claimed at first, only the marks of earlier uses count. -/
theorem trace_pairwise_nil_iff (b : Binder) (P : Source → Prop) (ops : List Op) :
    ((b.trace [] ops).Pairwise fun e f => ∀ c ∈ f.taken, c.span.start ∈ e.marks → P c) ↔
    ∀ before op rest, ops = before ++ op :: rest →
      ∀ c ∈ b.taken (b.after [] before) op, c.span.start ∈ b.after [] before → P c := by
  rw [← trace_pairwise_iff]
  simp

theorem exclusive_iff (b : Binder) (ops : List Op) :
    b.Exclusive ops ↔ ∀ before op rest, ops = before ++ op :: rest →
      ¬ b.ReachesBack (b.after [] before) op := by
  have h := b.trace_pairwise_nil_iff (fun _ => False) ops
  simp only [← taken_free_iff]
  exact h

theorem before?_split {b : Binder} {anchor : Nat} {c : Source} {earlier : List Source}
    (h : b.before? anchor = some (c, earlier)) : ∃ rest, b.comments = earlier.reverse ++ c :: rest := by
  obtain ⟨hfound, -⟩ := before?_eq_some.mp h
  obtain ⟨rest, hrest⟩ : b.endingBefore anchor <+: b.comments := List.take_prefix _ _
  refine ⟨rest, ?_⟩
  rw [← hrest, hfound, List.append_assoc, List.singleton_append]

/-- The comments above the one before a place start at other places. -/
theorem start_ne_of_before? {b : Binder} (hb : b.Ordered) {anchor : Nat} {c d : Source}
    {earlier : List Source} (h : b.before? anchor = some (c, earlier)) (hd : d ∈ earlier) :
    d.span.start ≠ c.span.start := by
  obtain ⟨rest, hs⟩ := before?_split h
  have hp := hb.2
  rw [hs, List.map_append, List.nodup_append] at hp
  exact hp.2.2 _ (List.mem_map_of_mem (List.mem_reverse.mpr hd)) _ List.mem_cons_self

/-- No run gives a text back twice just when every comment before a place stands alone. -/
theorem forall_exclusive_iff (b : Binder) (hb : b.Ordered) :
    (∀ ops, b.Exclusive ops) ↔
      ∀ anchor c earlier, b.before? anchor = some (c, earlier) → b.group c earlier = [c] := by
  constructor
  · intro hall anchor c earlier h
    by_cases hl : c.style = .line
    · cases ha : b.linesAbove c earlier with
      | nil => simp [group, hl, ha]
      | cons d above =>
        exfalso
        -- Claiming the line above first makes the use for `anchor` reach back.
        have hd : d ∈ b.linesAbove c earlier := by rw [ha]; exact List.mem_cons_self
        have hne := start_ne_of_before? hb h ((b.linesAbove_sublist c earlier).subset hd)
        have hc : b.after [] [.claim d.span.start] = [d.span.start] := rfl
        have hr : b.ReachesBack (b.after [] [.claim d.span.start]) (.bind [anchor]) := by
          refine ⟨c, earlier, by simp [nearest?, h], ?_, hl, d, hd, ?_⟩
          · rw [hc, List.mem_singleton]
            exact hne.symm
          · rw [hc]
            exact List.mem_singleton_self _
        have he := (b.exclusive_iff [.claim d.span.start, .bind [anchor]]).mp (hall _)
        exact he [.claim d.span.start] (.bind [anchor]) [] rfl hr
    · simp [group, hl]
  · intro halone ops
    rw [exclusive_iff]
    intro before op rest _ hr
    cases op with
    | bind anchors =>
      obtain ⟨c, earlier, hn, _, hl, d, hd, _⟩ := hr
      obtain ⟨anchor, _, h⟩ := List.exists_of_findSome?_eq_some hn
      have hnone : b.linesAbove c earlier = [] := by simpa [group, hl] using halone anchor c earlier h
      simp [hnone] at hd
    | trailing stop => exact hr
    | claim start => exact hr

/-- What a use gives back is made of the comments that it takes. A run takes none of them twice, nor one
that was claimed, just when no use in it reaches back; this holds of every run just when each comment
before a place stands alone. What is taken twice in any run is a line comment. -/
theorem text_given_back_once_iff (b : Binder) (hb : b.Ordered) :
    (∀ ops, ∀ e ∈ b.trace [] ops, e.IsMadeOfTaken) ∧
    (∀ ops, b.Exclusive ops ↔ ∀ before op rest, ops = before ++ op :: rest →
      ¬ b.ReachesBack (b.after [] before) op) ∧
    ((∀ ops, b.Exclusive ops) ↔
      ∀ anchor c earlier, b.before? anchor = some (c, earlier) → b.group c earlier = [c]) ∧
    ∀ ops, (b.trace [] ops).Pairwise fun e f =>
      ∀ c ∈ f.taken, c.span.start ∈ e.marks → c.style = .line := by
  refine ⟨?_, b.exclusive_iff, b.forall_exclusive_iff hb, ?_⟩
  · intro ops e he
    obtain ⟨before, op, rest, _, rfl⟩ := mem_trace.mp he
    exact b.event_isMadeOfTaken _ op
  · intro ops
    rw [trace_pairwise_nil_iff]
    intro before op rest _ c hc hm
    exact taken_claimed_style hc hm

/-- Code with a comment after it, and a comment on the line below. -/
def codeAndTwoLines : Binder where
  source := "a, // x\n// y\nb".toList
  comments := [⟨.line, ⟨3, 7⟩, [' ', 'x']⟩, ⟨.line, ⟨8, 12⟩, [' ', 'y']⟩]
  maxBlankLines := 0

theorem text_given_back_once_codeAndTwoLines :
    codeAndTwoLines.Ordered ∧ (∀ before op rest, [.bind [13], .trailing 1] = before ++ op :: rest →
      ¬ codeAndTwoLines.ReachesBack (codeAndTwoLines.after [] before) op) ∧
    ¬ ∀ ops, codeAndTwoLines.Exclusive ops := by
  have ho : codeAndTwoLines.Ordered := by decide
  obtain ⟨_, hrun, hall, _⟩ := text_given_back_once_iff codeAndTwoLines ho
  refine ⟨ho, (hrun _).mp (by decide), ?_⟩
  rw [hall]
  intro h
  exact absurd (h 13 _ _ rfl) (by decide)

/-- A comment after code and the line comment below it: the first is given back, and then both. -/
theorem trailing_comment_given_back_twice :
    ¬ ∀ (b : Binder) (ops : List Op), b.Ordered → b.Exclusive ops := by
  intro h
  have he := h codeAndTwoLines [.trailing 1, .bind [13]] (by decide)
  exact absurd he (by decide)

end ComponentDoc.Comment.Binder
