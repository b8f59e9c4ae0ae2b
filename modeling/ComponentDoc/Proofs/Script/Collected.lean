import ComponentDoc.Component.Basic
import ComponentDoc.Proofs.Sorting

namespace ComponentDoc

open Comment (Source)

namespace Script

theorem dedupByStart_sublist (cs : List Source) : (dedupByStart cs).Sublist cs := by
  fun_induction dedupByStart cs with
  | case1 => exact List.Sublist.refl _
  | case2 c => exact List.Sublist.refl _
  | case3 c d rest _ ih => exact ih.trans ((List.sublist_cons_self d rest).cons_cons c)
  | case4 c d rest _ ih => exact ih.cons_cons c

/-- The first comment that starts at a place stays. -/
theorem find?_dedupByStart (cs : List Source) (n : Nat) :
    (dedupByStart cs).find? (·.span.start == n) = cs.find? (·.span.start == n) := by
  fun_induction dedupByStart cs with
  | case1 => rfl
  | case2 c => rfl
  | case3 c d rest heq ih =>
    rw [ih]
    by_cases hc : c.span.start = n
    · simp [hc]
    · have hd : d.span.start ≠ n := by rwa [← beq_iff_eq.mp heq]
      simp [hc, hd]
  | case4 c d rest _ ih =>
    rw [List.find?_cons, ih]
    rfl

theorem pairwise_dedupByStart {cs : List Source} (h : cs.Pairwise fun c d => c.span.start ≤ d.span.start) :
    (dedupByStart cs).Pairwise fun c d => c.span.start < d.span.start := by
  fun_induction dedupByStart cs with
  | case1 => exact List.Pairwise.nil
  | case2 c => exact List.pairwise_singleton _ c
  | case3 c d rest _ ih => exact ih (h.sublist ((List.sublist_cons_self d rest).cons_cons c))
  | case4 c d rest hne ih =>
    obtain ⟨hc, hrest⟩ := List.pairwise_cons.mp h
    refine List.pairwise_cons.mpr ⟨fun e he => ?_, ih hrest⟩
    have hlt : c.span.start < d.span.start :=
      (hc d List.mem_cons_self).lt_of_ne (by simpa using hne)
    rcases List.mem_cons.mp ((dedupByStart_sublist _).subset he) with rfl | he
    · exact hlt
    · exact hlt.trans_le ((List.pairwise_cons.mp hrest).1 e he)

theorem dedupByStart_map_shift (cs : List Source) (n : Nat) :
    dedupByStart (cs.map (·.shift n)) = (dedupByStart cs).map (·.shift n) := by
  have hstart (c d : Source) :
      ((c.shift n).span.start == (d.shift n).span.start) = (c.span.start == d.span.start) := by
    simp [Source.shift, Text.Span.shift]
  fun_induction dedupByStart cs with
  | case1 => simp [dedupByStart]
  | case2 c => simp [dedupByStart]
  | case3 c d rest heq ih =>
    rw [List.map_cons, List.map_cons, dedupByStart, hstart, if_pos heq]
    exact ih
  | case4 c d rest hne ih =>
    rw [List.map_cons, List.map_cons, dedupByStart, hstart, if_neg hne, List.map_cons]
    exact congrArg _ ih

theorem pairwise_orderComments (cs : List Source) :
    (orderComments cs).Pairwise fun c d => c.span.start < d.span.start :=
  pairwise_dedupByStart (pairwise_mergeSort_ble (·.span.start) cs)

theorem nodup_orderComments (cs : List Source) : (orderComments cs).Nodup :=
  (pairwise_orderComments cs).imp fun hlt heq => hlt.ne (congrArg (·.span.start) heq)

theorem find?_orderComments (cs : List Source) (n : Nat) :
    (orderComments cs).find? (·.span.start == n) = cs.find? (·.span.start == n) := by
  rw [orderComments, find?_dedupByStart, ← List.head?_filter, filter_pos_mergeSort, List.head?_filter]

/-- Comments in order are the same whether they are moved before or after. -/
theorem orderComments_map_shift (cs : List Source) (n : Nat) :
    orderComments (cs.map (·.shift n)) = (orderComments cs).map (·.shift n) := by
  rw [orderComments, orderComments, ← dedupByStart_map_shift, ← List.map_mergeSort]
  intro c _ d _
  rw [Bool.eq_iff_iff]
  simp [Source.shift, Text.Span.shift]

/-- Comments that start at the same place are equal. -/
def ToldByStart (cs : List Source) : Prop :=
  ∀ c ∈ cs, ∀ d ∈ cs, c.span.start = d.span.start → c = d

theorem ToldByStart.find?_eq_some_iff {cs : List Source} (h : ToldByStart cs) {c : Source} :
    cs.find? (·.span.start == c.span.start) = some c ↔ c ∈ cs := by
  constructor
  · exact List.mem_of_find?_eq_some
  · intro hc
    obtain ⟨d, hd⟩ : ∃ d, cs.find? (·.span.start == c.span.start) = some d :=
      Option.isSome_iff_exists.mp (List.find?_isSome.mpr ⟨c, hc, by simp⟩)
    have hstart : d.span.start = c.span.start := by simpa using List.find?_some hd
    rw [hd, h d (List.mem_of_find?_eq_some hd) c hc hstart]

theorem toldByStart_orderComments (cs : List Source) : ToldByStart (orderComments cs) := by
  have hstarts : ((orderComments cs).map (·.span.start)).Nodup :=
    List.pairwise_map.mpr ((pairwise_orderComments cs).imp fun hlt => hlt.ne)
  exact fun c hc d hd => List.inj_on_of_nodup_map hstarts hc hd

/-- Of the comments that start at the same place the first one counts. -/
theorem mem_orderComments_iff {cs : List Source} {c : Source} :
    c ∈ orderComments cs ↔ cs.find? (·.span.start == c.span.start) = some c := by
  rw [← (toldByStart_orderComments cs).find?_eq_some_iff, find?_orderComments]

theorem ToldByStart.mem_orderComments_iff {cs : List Source} (h : ToldByStart cs) {c : Source} :
    c ∈ orderComments cs ↔ c ∈ cs :=
  Script.mem_orderComments_iff.trans h.find?_eq_some_iff

/-- Two collections of the same comments come out in the same order. -/
theorem orderComments_congr {cs ds : List Source} (h : ToldByStart cs) (hsame : ∀ c, c ∈ ds ↔ c ∈ cs) :
    orderComments ds = orderComments cs := by
  have hds : ToldByStart ds := fun c hc d hd => h c ((hsame c).mp hc) d ((hsame d).mp hd)
  have hperm : (orderComments ds).Perm (orderComments cs) := by
    refine (List.perm_ext_iff_of_nodup (nodup_orderComments ds) (nodup_orderComments cs)).mpr fun c => ?_
    rw [hds.mem_orderComments_iff, h.mem_orderComments_iff, hsame]
  exact hperm.eq_of_pairwise (fun c d _ _ hcd hdc => absurd hcd hdc.not_gt) (pairwise_orderComments ds)
    (pairwise_orderComments cs)

/-- The comments that the reading of a script comes upon. -/
def passedComments (typescript : Bool) (source : List Char) : List Source :=
  match readItems typescript source with
  | .ok _ s => s.cursor.comments.reverse
  | .error _ _ => []

theorem comments_of_parse {typescript : Bool} {source : List Char} {program : Program}
    (h : parse typescript source = .ok program) :
    program.comments = orderComments (passedComments typescript source) := by
  simp only [parse] at h
  split at h
  · cases h
  · next items s hrun =>
    split at h
    · cases h
    · obtain rfl := Except.ok.inj h
      simp only [passedComments, hrun]

end Script

theorem ScriptBlock.comments_of_read {text : List Char} {offset : Nat} {isModule isTypeScript : Bool}
    {script : ScriptBlock} (h : read text offset isModule isTypeScript = .ok script) :
    script.comments = Script.orderComments ((Script.passedComments isTypeScript text).map (·.shift offset)) := by
  unfold read at h
  split at h
  · next program hparse =>
    obtain rfl := Except.ok.inj h
    rw [Script.orderComments_map_shift, ← Script.comments_of_parse hparse]
  · cases h

/-- However the comments of a script are collected, in whatever order and some of them more than once, the same list
comes out of them: each comment once, in the strict order of the starts. It is the list that the script has. -/
theorem Script.comments_listed_as_collected (collected : List Source) (htold : ToldByStart collected) :
    (orderComments collected).Pairwise (fun c d => c.span.start < d.span.start) ∧
    (∀ c, (orderComments collected).count c = if c ∈ collected then 1 else 0) ∧
    (∀ others : List Source, (∀ c, c ∈ others ↔ c ∈ collected) → orderComments others = orderComments collected) ∧
    ∀ (text : List Char) (offset : Nat) (isModule isTypeScript : Bool) (script : ScriptBlock),
      ScriptBlock.read text offset isModule isTypeScript = .ok script →
      (∀ c, c ∈ collected ↔ c ∈ (passedComments isTypeScript text).map (·.shift offset)) →
      script.comments = orderComments collected := by
  refine ⟨pairwise_orderComments collected, fun c => ?_, fun others => orderComments_congr htold, ?_⟩
  · rw [(nodup_orderComments collected).count, if_congr htold.mem_orderComments_iff rfl rfl]
  · intro text offset isModule isTypeScript script hread hsame
    rw [ScriptBlock.comments_of_read hread]
    exact orderComments_congr htold fun c => (hsame c).symm

/-- The comments of `/*a*/let b//c` behind eight bytes, the later one first and the earlier one twice. -/
def collectedTwice : List Source :=
  [⟨.line, ⟨18, 21⟩, ['c']⟩, ⟨.block, ⟨8, 13⟩, ['a']⟩, ⟨.block, ⟨8, 13⟩, ['a']⟩]

theorem Script.comments_listed_as_collected_twice : ToldByStart collectedTwice ∧
    (∀ c, (orderComments collectedTwice).count c = if c ∈ collectedTwice then 1 else 0) ∧
    orderComments collectedTwice.reverse = orderComments collectedTwice ∧
    ∃ script, ScriptBlock.read "/*a*/let b//c".toList 8 false false = .ok script ∧
      script.comments = orderComments collectedTwice := by
  have htold : ToldByStart collectedTwice := by
    simp [ToldByStart, collectedTwice]
  have hpassed : (passedComments false "/*a*/let b//c".toList).map (·.shift 8) =
      [⟨.block, ⟨8, 13⟩, ['a']⟩, ⟨.line, ⟨18, 21⟩, ['c']⟩] := by
    decide +kernel
  have hread : (ScriptBlock.read "/*a*/let b//c".toList 8 false false).toOption.isSome := by
    decide +kernel
  obtain ⟨script, hscript⟩ := Option.isSome_iff_exists.mp hread
  obtain ⟨-, honce, hsame, hlisted⟩ := comments_listed_as_collected collectedTwice htold
  refine ⟨htold, honce, hsame _ (fun c => List.mem_reverse), script, toOption_eq_some_iff.mp hscript, ?_⟩
  refine hlisted _ 8 false false script (toOption_eq_some_iff.mp hscript) fun c => ?_
  rw [hpassed]
  simp [collectedTwice, or_comm]

end ComponentDoc
