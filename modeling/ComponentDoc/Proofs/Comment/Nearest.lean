import ComponentDoc.Proofs.Comment.Run
import ComponentDoc.Proofs.Text.Boundary

namespace ComponentDoc.Comment.Binder

open Text

/-- The text between two places is blank and has at most so many line feeds. Both places are in the text, and
neither cuts a character. -/
def BlankBetween (text : List Char) (start stop lineFeeds : Nat) : Prop :=
  ∃ before gap after, text = before ++ gap ++ after ∧ byteLength before = start ∧
    byteLength (before ++ gap) = stop ∧ (∀ ch ∈ gap, isBlank ch) ∧ gap.count '\n' ≤ lineFeeds

/-- Comments in a row, none of which ends before it starts. -/
structure InOrder (b : Binder) : Prop where
  isRange : ∀ c ∈ b.comments, c.span.start ≤ c.span.stop
  inRow : b.InRow

/-- `c` is the last comment that ends at a place or before it, those before it are `earlier`, and only blanks
separate it from the place. -/
structure StandsBefore (b : Binder) (place : Nat) (earlier : List Source) (c : Source) : Prop where
  isLast : ∃ later, b.comments = earlier ++ c :: later ∧ c.span.stop ≤ place ∧
    ∀ d ∈ later, place < d.span.stop
  isNear : BlankBetween b.source c.span.stop place (b.maxBlankLines + 1)

/-- The comment `c` stands before the first of the places that have one. -/
def IsFirst (b : Binder) (places : List Nat) (earlier : List Source) (c : Source) : Prop :=
  ∃ passed place rest, places = passed ++ place :: rest ∧ b.StandsBefore place earlier c ∧
    ∀ p ∈ passed, ∀ earlier c, ¬ b.StandsBefore p earlier c

/-- Comments in a row up to `c` that count as one with it: `c` alone, or, if it is a line comment, line
comments each right under the one before. -/
structure IsRun (b : Binder) (earlier : List Source) (c : Source) (run : List Source) : Prop where
  row : run <:+ earlier ++ [c]
  nonempty : run ≠ []
  alone : c.style ≠ .line → run = [c]
  lines : c.style = .line → (∀ d ∈ run, d.style = .line) ∧
    run.IsChain fun d e => BlankBetween b.source d.span.stop e.span.start 1

def IsLongestRun (b : Binder) (earlier : List Source) (c : Source) (run : List Source) : Prop :=
  b.IsRun earlier c run ∧ ∀ other, b.IsRun earlier c other → other.length ≤ run.length

/-- What the places get while the comments that start at `claimed` are taken. -/
inductive Gives (b : Binder) (claimed places : List Nat) : Option Doc → Prop where
  | nothing (h : ∀ p ∈ places, ∀ earlier c, ¬ b.StandsBefore p earlier c) : b.Gives claimed places none
  | taken {earlier : List Source} {c : Source} (h : b.IsFirst places earlier c)
      (hc : c.span.start ∈ claimed) : b.Gives claimed places none
  | bound {earlier run : List Source} {c : Source} (h : b.IsFirst places earlier c)
      (hc : c.span.start ∉ claimed) (hr : b.IsLongestRun earlier c run) :
      b.Gives claimed places (some (Doc.parse (joinLines (run.map Source.text))))

theorem isClose_iff {b : Binder} {start stop n : Nat} :
    b.isClose start stop n ↔ BlankBetween b.source start stop (n + 1) := by
  unfold isClose BlankBetween
  constructor
  · intro h
    cases hs : slice? b.source start stop with
    | none => simp [hs] at h
    | some gap =>
      obtain ⟨before, after, htext, hstart, hstop⟩ := slice?_eq_some_iff.mp hs
      simp only [hs, Bool.and_eq_true, List.all_eq_true, Nat.ble_eq] at h
      exact ⟨before, gap, after, htext, hstart, hstop, h.1, h.2⟩
  · rintro ⟨before, gap, after, htext, hstart, hstop, hblank, hcount⟩
    have hs := slice?_eq_some_iff.mpr ⟨before, after, htext, hstart, hstop⟩
    simp only [hs, Bool.and_eq_true, List.all_eq_true, Nat.ble_eq]
    exact ⟨hblank, hcount⟩

/-- Comments that do not reach into each other end in the order in which they start. -/
theorem InOrder.ends {b : Binder} (hb : b.InOrder) :
    b.comments.Pairwise fun c d => c.span.stop ≤ d.span.stop := by
  refine hb.inRow.imp_of_mem fun {c d} _ hd h => ?_
  have hrange := hb.isRange d hd
  omega

/-- Where a property of later members holds of earlier ones too, it holds of none behind the first failure. -/
theorem not_of_mem_dropWhile {α : Type} {p : α → Bool} {xs : List α}
    (h : xs.Pairwise fun a b => p b → p a) {a : α} (ha : a ∈ xs.dropWhile p) : ¬ p a := by
  induction xs with
  | nil => simp at ha
  | cons x xs ih =>
    rw [List.dropWhile_cons] at ha
    split_ifs at ha with hx
    · exact ih h.of_cons ha
    · rcases List.mem_cons.mp ha with rfl | hm
      · exact hx
      · exact fun hp => hx ((List.pairwise_cons.mp h).1 a hm hp)

/-- If every comment before one that passes a test passes it too, a comment passes it just when it stands before the
first that fails. -/
theorem any_getElem?_iff {p : Source → Bool} {comments : List Source}
    (h : comments.Pairwise fun c d => p d → p c) (i : Nat) :
    comments[i]?.any p ↔ i < (comments.takeWhile p).length := by
  induction comments generalizing i with
  | nil => simp
  | cons c comments ih =>
    obtain ⟨hc, hrest⟩ := List.pairwise_cons.mp h
    by_cases hp : p c
    · rw [List.takeWhile_cons_of_pos hp]
      cases i with
      | zero => simp [hp]
      | succ i => simpa using ih hrest i
    · rw [List.takeWhile_cons_of_neg hp]
      cases i with
      | zero => simp [hp]
      | succ i =>
        have hfail : ∀ d ∈ comments, ¬ p d := fun d hd hpd => hp (hc d hd hpd)
        simpa [Option.any_eq_true] using fun d hd => hfail d (List.mem_of_getElem? hd)

/-- The first `count` comments, those that pass, reach no further than the stretch of `size` comments from `base` on,
and the one at `base` is among them unless it is the first of all. -/
structure Brackets (count base size : Nat) : Prop where
  low : base = 0 ∨ base < count
  high : count ≤ base + size

/-- Each halving keeps the end of those that pass in the stretch, so that it is known when one comment is left. -/
theorem narrow_brackets {p : Source → Bool} {comments : List Source} {count : Nat}
    (hp : ∀ i, comments[i]?.any p ↔ i < count) {rounds base size : Nat} (hsize : size ≤ rounds)
    (h : Brackets count base size) : Brackets count (narrow p comments rounds base size) 1 := by
  induction rounds generalizing base size with
  | zero =>
    obtain ⟨hlow, hhigh⟩ := h
    rw [narrow]
    exact ⟨hlow, by omega⟩
  | succ rounds ih =>
    obtain ⟨hlow, hhigh⟩ := h
    rw [narrow]
    split_ifs with hle
    · rw [Nat.ble_eq] at hle
      exact ⟨hlow, by omega⟩
    · rw [Nat.ble_eq] at hle
      have hmiddle := hp (base + size / 2)
      refine ih (by omega) ?_
      split_ifs with hpass
      · exact ⟨.inr (hmiddle.mp hpass), by omega⟩
      · rw [hmiddle] at hpass
        exact ⟨hlow, by omega⟩

/-- Over comments in order, the search by halves finds what a search one by one finds. -/
theorem take_partitionPoint {p : Source → Bool} {comments : List Source}
    (h : comments.Pairwise fun c d => p d → p c) :
    comments.take (partitionPoint p comments) = comments.takeWhile p := by
  have hp := any_getElem?_iff h
  have hprefix : comments.takeWhile p <+: comments := List.takeWhile_prefix p
  have hbase : Brackets (comments.takeWhile p).length
      (narrow p comments comments.length 0 comments.length) 1 :=
    narrow_brackets hp le_rfl ⟨.inl rfl, by simpa using hprefix.length_le⟩
  have hpoint : partitionPoint p comments = (comments.takeWhile p).length := by
    obtain ⟨hlow, hhigh⟩ := hbase
    simp only [partitionPoint]
    split_ifs with hlast
    · have hlt := (hp _).mp hlast
      omega
    · rw [hp] at hlast
      omega
  rw [hpoint, ← List.prefix_iff_eq_take.mp hprefix]

theorem InOrder.endingBefore_eq {b : Binder} (hb : b.InOrder) (place : Nat) :
    b.endingBefore place = b.comments.takeWhile fun c => Nat.ble c.span.stop place := by
  refine take_partitionPoint (hb.ends.imp fun {c d} hle hd => ?_)
  rw [Nat.ble_eq] at hd ⊢
  omega

/-- The comments that end before a place come before all others. -/
theorem takeWhile_ends_iff {comments : List Source}
    (h : comments.Pairwise fun c d => c.span.stop ≤ d.span.stop) (earlier : List Source) (c : Source)
    (place : Nat) :
    (comments.takeWhile fun c => Nat.ble c.span.stop place) = earlier ++ [c] ↔
      ∃ later, comments = earlier ++ c :: later ∧ c.span.stop ≤ place ∧
        ∀ d ∈ later, place < d.span.stop := by
  generalize hp : (fun c : Source => Nat.ble c.span.stop place) = p
  have hends (d : Source) : p d ↔ d.span.stop ≤ place := by rw [← hp, Nat.ble_eq]
  have hmono : comments.Pairwise fun c d => p d → p c := by
    refine h.imp fun {c d} hle => ?_
    rw [hends, hends]
    omega
  constructor
  · intro ht
    have hc : p c := by
      have hm : c ∈ comments.takeWhile p := by simp [ht]
      exact List.mem_takeWhile_imp hm
    have hsplit : comments = earlier ++ c :: comments.dropWhile p := by
      rw [← List.singleton_append, ← List.append_assoc, ← ht, List.takeWhile_append_dropWhile]
    refine ⟨comments.dropWhile p, hsplit, (hends c).mp hc, ?_⟩
    intro d hd
    have hfail := not_of_mem_dropWhile hmono hd
    rw [hends] at hfail
    omega
  · rintro ⟨later, rfl, hc, hlater⟩
    have hearlier : ∀ d ∈ earlier ++ [c], p d := by
      intro d hd
      rw [hends]
      rcases List.mem_append.mp hd with hm | hm
      · have hle := (List.pairwise_append.mp h).2.2 d hm c List.mem_cons_self
        omega
      · rwa [List.mem_singleton.mp hm]
    have hrest : later.takeWhile p = [] := by
      cases later with
      | nil => rfl
      | cons d later =>
        have hd := hlater d List.mem_cons_self
        rw [List.takeWhile_cons_of_neg]
        rw [hends]
        omega
    have happend : earlier ++ c :: later = (earlier ++ [c]) ++ later := by simp
    rw [happend, List.takeWhile_append_of_pos hearlier, hrest, List.append_nil]

theorem before?_eq_some_iff {b : Binder} (hb : b.InOrder) {place : Nat} {c : Source}
    {earlier : List Source} :
    b.before? place = some (c, earlier.reverse) ↔ b.StandsBefore place earlier c := by
  rw [before?_eq_some, List.reverse_reverse, hb.endingBefore_eq, takeWhile_ends_iff hb.ends, isClose_iff]
  constructor
  · rintro ⟨hlast, hnear⟩
    exact ⟨hlast, hnear⟩
  · rintro ⟨hlast, hnear⟩
    exact ⟨hlast, hnear⟩

theorem before?_eq_none_iff {b : Binder} (hb : b.InOrder) {place : Nat} :
    b.before? place = none ↔ ∀ earlier c, ¬ b.StandsBefore place earlier c := by
  constructor
  · intro h earlier c hs
    rw [← before?_eq_some_iff hb, h] at hs
    cases hs
  · intro h
    cases hf : b.before? place with
    | none => rfl
    | some found =>
      obtain ⟨c, above⟩ := found
      have hs : b.StandsBefore place above.reverse c := by
        rw [← before?_eq_some_iff hb, List.reverse_reverse, hf]
      exact absurd hs (h _ _)

theorem nearest?_eq_some_iff {b : Binder} (hb : b.InOrder) {places : List Nat} {c : Source}
    {earlier : List Source} :
    b.nearest? places = some (c, earlier.reverse) ↔ b.IsFirst places earlier c := by
  unfold nearest? IsFirst
  rw [List.findSome?_eq_some_iff]
  simp only [before?_eq_some_iff hb, before?_eq_none_iff hb]

theorem nearest?_eq_none_iff {b : Binder} (hb : b.InOrder) {places : List Nat} :
    b.nearest? places = none ↔ ∀ p ∈ places, ∀ earlier c, ¬ b.StandsBefore p earlier c := by
  unfold nearest?
  rw [List.findSome?_eq_none_iff]
  simp only [before?_eq_none_iff hb]

/-- A line comment with the line comments right above it. -/
def lineRun (b : Binder) (c : Source) (above : List Source) : List Source :=
  (b.linesAbove c above).reverse ++ [c]

theorem lineRun_nil (b : Binder) (c : Source) : b.lineRun c [] = [c] := rfl

theorem lineRun_cons_of_above {b : Binder} {c d : Source} (hl : d.style = .line)
    (hd : BlankBetween b.source d.span.stop c.span.start 1) (above : List Source) :
    b.lineRun c (d :: above) = b.lineRun d above ++ [c] := by
  have hclose : b.isClose d.span.stop c.span.start 0 := isClose_iff.mpr hd
  simp [lineRun, linesAbove, hl, hclose]

theorem lineRun_cons_of_not_above {b : Binder} {c d : Source}
    (h : ¬ (d.style = .line ∧ BlankBetween b.source d.span.stop c.span.start 1)) (above : List Source) :
    b.lineRun c (d :: above) = [c] := by
  have hclose : ¬ (d.style = .line ∧ b.isClose d.span.stop c.span.start 0) := by rwa [isClose_iff]
  simp [lineRun, linesAbove, hclose]

theorem getLast?_lineRun (b : Binder) (c : Source) (above : List Source) :
    (b.lineRun c above).getLast? = some c := by
  simp [lineRun]

theorem isRun_singleton (b : Binder) (earlier : List Source) (c : Source) : b.IsRun earlier c [c] := by
  refine ⟨List.suffix_append _ _, List.cons_ne_nil _ _, fun _ => rfl, fun hc => ⟨?_, ?_⟩⟩
  · simpa using hc
  · exact List.isChain_singleton c

theorem isRun_lineRun {b : Binder} {c : Source} (hc : c.style = .line) (above : List Source) :
    b.IsRun above.reverse c (b.lineRun c above) := by
  induction above generalizing c with
  | nil => exact b.isRun_singleton [] c
  | cons d above ih =>
    by_cases h : d.style = .line ∧ BlankBetween b.source d.span.stop c.span.start 1
    · obtain ⟨hrow, _, _, hlines⟩ := ih h.1
      obtain ⟨hstyle, hchain⟩ := hlines h.1
      rw [lineRun_cons_of_above h.1 h.2, List.reverse_cons]
      have hsuffix : b.lineRun d above ++ [c] <:+ above.reverse ++ [d] ++ [c] :=
        List.suffix_concat_iff.mpr (.inr ⟨b.lineRun d above, rfl, hrow⟩)
      refine ⟨hsuffix, by simp, fun hn => absurd hc hn, fun _ => ⟨?_, ?_⟩⟩
      · intro e he
        rcases List.mem_append.mp he with hm | hm
        · exact hstyle e hm
        · rwa [List.mem_singleton.mp hm]
      · refine List.isChain_append.mpr ⟨hchain, List.isChain_singleton c, ?_⟩
        intro x hx y hy
        rw [getLast?_lineRun] at hx
        obtain rfl : d = x := Option.some.inj hx
        obtain rfl : c = y := Option.some.inj hy
        exact h.2
    · rw [lineRun_cons_of_not_above h]
      exact b.isRun_singleton _ c

/-- No run of line comments is longer. -/
theorem length_le_lineRun {b : Binder} {c : Source} (hc : c.style = .line) {above run : List Source}
    (hr : b.IsRun above.reverse c run) : run.length ≤ (b.lineRun c above).length := by
  induction above generalizing c run with
  | nil =>
    have hle := hr.row.length_le
    simpa [lineRun_nil] using hle
  | cons d above ih =>
    obtain ⟨hrow, hne, _, hlines⟩ := hr
    obtain ⟨hstyle, hchain⟩ := hlines hc
    obtain ⟨front, rfl, hfront⟩ : ∃ front, run = front ++ [c] ∧ front <:+ above.reverse ++ [d] := by
      rw [List.reverse_cons, List.suffix_concat_iff] at hrow
      exact hrow.resolve_left hne
    rcases List.suffix_concat_iff.mp hfront with rfl | ⟨before, rfl, _⟩
    · simp [lineRun]
    · -- The comment right above `c` in the run is `d`, so that the run goes on from there.
      have hd : d.style = .line := hstyle d (by simp)
      have hblank : BlankBetween b.source d.span.stop c.span.start 1 := by
        refine (List.isChain_append.mp hchain).2.2 d ?_ c rfl
        simp
      have hrun : b.IsRun above.reverse d (before ++ [d]) := by
        refine ⟨hfront, by simp, fun hn => absurd hd hn, fun _ => ⟨?_, ?_⟩⟩
        · intro e he
          exact hstyle e (List.mem_append_left _ he)
        · exact (List.isChain_append.mp hchain).1
      have hle := ih hd hrun
      rw [lineRun_cons_of_above hd hblank]
      simpa using hle

theorem isLongestRun_group (b : Binder) (c : Source) (earlier : List Source) :
    b.IsLongestRun earlier c (b.group c earlier.reverse) := by
  by_cases hc : c.style = .line
  · have hg : b.group c earlier.reverse = b.lineRun c earlier.reverse := by simp [group, hc, lineRun]
    rw [hg]
    have hrun : b.IsRun earlier.reverse.reverse c (b.lineRun c earlier.reverse) :=
      isRun_lineRun hc earlier.reverse
    rw [List.reverse_reverse] at hrun
    refine ⟨hrun, fun other ho => ?_⟩
    apply length_le_lineRun hc
    rwa [List.reverse_reverse]
  · have hg : b.group c earlier.reverse = [c] := by simp [group, hc]
    rw [hg]
    refine ⟨b.isRun_singleton earlier c, fun other ho => ?_⟩
    rw [ho.alone hc]

theorem IsLongestRun.eq {b : Binder} {c : Source} {earlier run run' : List Source}
    (h : b.IsLongestRun earlier c run) (h' : b.IsLongestRun earlier c run') : run = run' := by
  have hle := h'.2 run h.1
  have hge := h.2 run' h'.1
  have hsuffix := List.suffix_of_suffix_length_le h.1.row h'.1.row hle
  exact hsuffix.eq_of_length (le_antisymm hle hge)

/-- Over comments in order, a binding gives back what `Gives` says and nothing else. -/
theorem bind_eq_iff_gives (b : Binder) (hb : b.InOrder) (claimed places : List Nat) (doc : Option Doc) :
    (b.bind claimed places).1 = doc ↔ b.Gives claimed places doc := by
  rw [bind_eq]
  constructor
  · rintro rfl
    cases hn : b.nearest? places with
    | none =>
      have ht : b.taken claimed (.bind places) = [] := by simp [taken, hn]
      rw [ht]
      exact .nothing ((nearest?_eq_none_iff hb).mp hn)
    | some found =>
      obtain ⟨c, above⟩ := found
      have hfirst : b.IsFirst places above.reverse c := by
        rw [← nearest?_eq_some_iff hb, List.reverse_reverse, hn]
      by_cases hc : c.span.start ∈ claimed
      · have ht : b.taken claimed (.bind places) = [] := by simp [taken, hn, hc]
        rw [ht]
        exact .taken hfirst hc
      · have ht : b.taken claimed (.bind places) = b.group c above := by simp [taken, hn, hc]
        have hrun := b.isLongestRun_group c above.reverse
        rw [List.reverse_reverse] at hrun
        rw [ht, docOf?_of_ne_nil (b.group_ne_nil c above)]
        exact .bound hfirst hc hrun
  · intro h
    cases h with
    | nothing h => simp [taken, (nearest?_eq_none_iff hb).mpr h, docOf?]
    | taken h hc => simp [taken, (nearest?_eq_some_iff hb).mpr h, hc, docOf?]
    | bound h hc hr =>
      rename_i earlier run c
      have ht : b.taken claimed (.bind places) = run := by
        rw [hr.eq (b.isLongestRun_group c earlier)]
        simp [taken, (nearest?_eq_some_iff hb).mpr h, hc]
      rw [ht, docOf?_of_ne_nil hr.1.nonempty]

/-- Two line comments, and code after a blank line. -/
def linesAndBlank : Binder where
  source := "// x\n// y\n\néb".toList
  comments := [⟨.line, ⟨0, 4⟩, [' ', 'x']⟩, ⟨.line, ⟨5, 9⟩, [' ', 'y']⟩]
  maxBlankLines := 1

/-- A place inside the accented letter and one behind it have no comment before them; the one in front of it
gets both lines, unless the second is taken. -/
theorem bind_eq_linesAndBlank :
    linesAndBlank.InOrder ∧ linesAndBlank.Gives [0] [12, 13, 11] (some ⟨some "x\ny", []⟩) ∧
      linesAndBlank.Gives [5] [12, 13, 11] none := by
  have hb : linesAndBlank.InOrder := ⟨by decide, by decide⟩
  refine ⟨hb, ?_, ?_⟩
  · exact (bind_eq_iff_gives linesAndBlank hb [0] [12, 13, 11] _).mp (by decide)
  · exact (bind_eq_iff_gives linesAndBlank hb [5] [12, 13, 11] _).mp (by decide)

end ComponentDoc.Comment.Binder
