import ComponentDoc.Comment.Binder
import Mathlib.Data.List.Basic
import Mathlib.Tactic.SplitIfs
import Mathlib.Tactic.Tauto

namespace ComponentDoc.Comment.Binder

open Text

/-- Comments in order of their start, none reaching into the next. -/
def InRow (b : Binder) : Prop :=
  b.comments.Pairwise fun c d => c.span.start ≤ d.span.start ∧ c.span.stop ≤ d.span.start

instance (b : Binder) : Decidable b.InRow :=
  inferInstanceAs (Decidable (b.comments.Pairwise _))

/-- One use of a binder. -/
inductive Op where
  | bind (anchors : List Nat)
  | trailing (stop : Nat)
  | claim (start : Nat)
deriving DecidableEq, Repr

/-- What a use gives back: a comment if one is bound, or whether a start was free. -/
inductive Answer where
  | doc (doc : Option Doc)
  | isFree (free : Bool)
deriving DecidableEq, Repr

def step (b : Binder) (claimed : List Nat) : Op → Answer × List Nat
  | .bind anchors => Prod.map .doc id (b.bind claimed anchors)
  | .trailing stop => Prod.map .doc id (b.bindTrailing claimed stop)
  | .claim start => Prod.map .isFree id (claim claimed start)

/-- The starts that are claimed after a run. -/
def after (b : Binder) (claimed : List Nat) : List Op → List Nat
  | [] => claimed
  | op :: ops => b.after (b.step claimed op).2 ops

/-- The comment before the first of the places that has one, with those above it. -/
def nearest? (b : Binder) (anchors : List Nat) : Option (Source × List Source) :=
  anchors.findSome? b.before?

/-- The comment that follows code on its line, claimed or not. -/
def follower? (b : Binder) (stop : Nat) : Option Source :=
  match b.startingFrom stop with
  | [] => none
  | c :: _ =>
    match slice? b.source stop c.span.start with
    | none => none
    | some gap => if isTrailingGap c.style gap then some c else none

/-- The comments whose texts a use gives back. -/
def taken (b : Binder) (claimed : List Nat) : Op → List Source
  | .bind anchors =>
    match b.nearest? anchors with
    | some (c, earlier) => if claimed.contains c.span.start then [] else b.group c earlier
    | none => []
  | .trailing stop =>
    match b.follower? stop with
    | some c => if claimed.contains c.span.start then [] else [c]
    | none => []
  | .claim _ => []

/-- The starts that a use marks as claimed. -/
def marks (b : Binder) (claimed : List Nat) : Op → List Nat
  | .claim start => [start]
  | op => (b.taken claimed op).map (·.span.start)

/-- The comment that the texts of some comments make together. -/
def docOf? : List Source → Option Doc
  | [] => none
  | c :: cs => some (Doc.parse (joinLines ((c :: cs).map Source.text)))

theorem before?_eq_some {b : Binder} {anchor : Nat} {c : Source} {earlier : List Source} :
    b.before? anchor = some (c, earlier) ↔
      b.endingBefore anchor = earlier.reverse ++ [c] ∧ b.isClose c.span.stop anchor b.maxBlankLines := by
  unfold before?
  generalize b.endingBefore anchor = found
  constructor
  · intro h
    cases hr : found.reverse with
    | nil => simp [hr] at h
    | cons d above =>
      simp only [hr] at h
      split_ifs at h with hclose
      obtain ⟨rfl, rfl⟩ : d = c ∧ above = earlier := by simpa using h
      have hf : found = above.reverse ++ [d] := by
        rw [← List.reverse_reverse found, hr, List.reverse_cons]
      exact ⟨hf, hclose⟩
  · rintro ⟨rfl, hclose⟩
    simp [hclose]

theorem docOf?_eq_none_iff {cs : List Source} : docOf? cs = none ↔ cs = [] := by
  cases cs <;> simp [docOf?]

theorem docOf?_of_ne_nil {cs : List Source} (h : cs ≠ []) :
    docOf? cs = some (Doc.parse (joinLines (cs.map Source.text))) := by
  cases cs with
  | nil => exact absurd rfl h
  | cons c cs => rfl

theorem mem_group {b : Binder} {c d : Source} {earlier : List Source} :
    d ∈ b.group c earlier ↔ d = c ∨ (c.style = .line ∧ d ∈ b.linesAbove c earlier) := by
  unfold group
  by_cases hl : c.style = .line
  · simp [hl, or_comm]
  · simp [hl]

theorem group_ne_nil (b : Binder) (c : Source) (earlier : List Source) : b.group c earlier ≠ [] :=
  List.ne_nil_of_mem (mem_group.mpr (Or.inl rfl))

theorem linesAbove_style {b : Binder} {c d : Source} {earlier : List Source}
    (h : d ∈ b.linesAbove c earlier) : d.style = .line := by
  induction earlier generalizing c with
  | nil => simp [linesAbove] at h
  | cons e earlier ih =>
    unfold linesAbove at h
    split_ifs at h with hj
    · rcases List.mem_cons.mp h with rfl | hm
      · simpa using (Bool.and_eq_true_iff.mp hj).1
      · exact ih hm
    · simp at h

theorem linesAbove_sublist (b : Binder) (c : Source) (earlier : List Source) :
    (b.linesAbove c earlier).Sublist earlier := by
  induction earlier generalizing c with
  | nil => simp [linesAbove]
  | cons e earlier ih =>
    unfold linesAbove
    split_ifs
    · exact (ih e).cons_cons e
    · exact List.nil_sublist _

/-- A use that takes nothing while all comments are free never takes anything. -/
theorem taken_eq_nil_of_free {b : Binder} {op : Op} (h : b.taken [] op = []) (claimed : List Nat) :
    b.taken claimed op = [] := by
  cases op with
  | bind anchors =>
    cases hn : b.nearest? anchors with
    | none => simp [taken, hn]
    | some found => simp [taken, hn, group_ne_nil] at h
  | trailing stop =>
    cases hf : b.follower? stop with
    | none => simp [taken, hf]
    | some c => simp [taken, hf] at h
  | claim start => rfl

/-- What `bind` gives back and claims, by the comments that it takes. -/
theorem bind_eq (b : Binder) (claimed anchors : List Nat) :
    b.bind claimed anchors = (docOf? (b.taken claimed (.bind anchors)),
      (b.taken claimed (.bind anchors)).map (·.span.start) ++ claimed) := by
  induction anchors with
  | nil => rfl
  | cons a anchors ih =>
    unfold bind
    cases hb : b.before? a with
    | none => simpa [taken, nearest?, hb] using ih
    | some found =>
      obtain ⟨c, earlier⟩ := found
      have hn : b.nearest? (a :: anchors) = some (c, earlier) := by simp [nearest?, hb]
      by_cases hc : claimed.contains c.span.start
      · simp only [taken, hn, hc, if_true]
        rfl
      · simp only [taken, hn, hc, Bool.false_eq_true, if_false]
        rw [docOf?_of_ne_nil (b.group_ne_nil c earlier)]

theorem bindTrailing_eq (b : Binder) (claimed : List Nat) (stop : Nat) :
    b.bindTrailing claimed stop = (docOf? (b.taken claimed (.trailing stop)),
      (b.taken claimed (.trailing stop)).map (·.span.start) ++ claimed) := by
  unfold bindTrailing
  cases hd : b.startingFrom stop with
  | nil =>
    have hf : b.follower? stop = none := by simp [follower?, hd]
    simp [taken, hf, docOf?]
  | cons c rest =>
    cases hs : slice? b.source stop c.span.start with
    | none =>
      have hf : b.follower? stop = none := by simp [follower?, hd, hs]
      simp [taken, hf, hs, docOf?]
    | some gap =>
      by_cases hg : isTrailingGap c.style gap
      · have hf : b.follower? stop = some c := by simp [follower?, hd, hs, hg]
        by_cases hc : c.span.start ∈ claimed <;> simp [taken, hf, hs, hg, hc, docOf?, joinLines]
      · have hf : b.follower? stop = none := by simp [follower?, hd, hs, hg]
        simp [taken, hf, hs, hg, docOf?]

theorem mem_claim {claimed : List Nat} {start x : Nat} :
    x ∈ (claim claimed start).2 ↔ x = start ∨ x ∈ claimed := by
  unfold claim
  by_cases hc : start ∈ claimed
  · have hx : x = start → x ∈ claimed := fun h => h ▸ hc
    simpa [hc] using hx
  · simp [hc]

/-- The starts that are claimed after one use. -/
theorem mem_step {b : Binder} {claimed : List Nat} {op : Op} {x : Nat} :
    x ∈ (b.step claimed op).2 ↔ x ∈ b.marks claimed op ∨ x ∈ claimed := by
  cases op with
  | bind anchors => simp only [step, bind_eq, Prod.map_snd, id_eq, marks, List.mem_append]
  | trailing stop => simp only [step, bindTrailing_eq, Prod.map_snd, id_eq, marks, List.mem_append]
  | claim start => simp only [step, Prod.map_snd, id_eq, mem_claim, marks, List.mem_singleton]

/-- A comment that a use takes is free, or it is a line comment above the free comment that the use
is about. -/
theorem mem_taken {b : Binder} {claimed : List Nat} {op : Op} {c : Source}
    (h : c ∈ b.taken claimed op) :
    c.span.start ∉ claimed ∨ ∃ anchors d earlier, op = .bind anchors ∧
      b.nearest? anchors = some (d, earlier) ∧ d.span.start ∉ claimed ∧ d.style = .line ∧
      c ∈ b.linesAbove d earlier := by
  cases op with
  | bind anchors =>
    cases hn : b.nearest? anchors with
    | none => simp [taken, hn] at h
    | some found =>
      obtain ⟨d, earlier⟩ := found
      simp only [taken, hn] at h
      split_ifs at h with hc
      · simp at h
      · have hd : d.span.start ∉ claimed := by simpa using hc
        rcases mem_group.mp h with rfl | ⟨hl, hm⟩
        · exact Or.inl hd
        · exact Or.inr ⟨anchors, d, earlier, rfl, hn, hd, hl, hm⟩
  | trailing stop =>
    left
    cases hf : b.follower? stop with
    | none => simp [taken, hf] at h
    | some d =>
      simp only [taken, hf] at h
      split_ifs at h with hc
      · simp at h
      · obtain rfl : c = d := by simpa using h
        simpa using hc
  | claim start => simp [taken] at h

/-- A use as it went. -/
structure Event where
  op : Op
  answer : Answer
  /-- The comments whose texts the answer holds. -/
  taken : List Source
  /-- The starts that it marked as claimed. -/
  marks : List Nat

def event (b : Binder) (claimed : List Nat) (op : Op) : Event :=
  ⟨op, (b.step claimed op).1, b.taken claimed op, b.marks claimed op⟩

def trace (b : Binder) (claimed : List Nat) : List Op → List Event
  | [] => []
  | op :: ops => b.event claimed op :: b.trace (b.step claimed op).2 ops

/-- The answer of a use is made of the texts of the comments that it took, and nothing else. -/
def Event.IsMadeOfTaken (e : Event) : Prop :=
  match e.answer with
  | .doc doc => doc = docOf? e.taken
  | .isFree _ => e.taken = []

theorem event_isMadeOfTaken (b : Binder) (claimed : List Nat) (op : Op) :
    (b.event claimed op).IsMadeOfTaken := by
  cases op with
  | bind anchors => simp [Event.IsMadeOfTaken, event, step, bind_eq]
  | trailing stop => simp [Event.IsMadeOfTaken, event, step, bindTrailing_eq]
  | claim start => simp [Event.IsMadeOfTaken, event, step, taken]

theorem mem_trace {b : Binder} {claimed : List Nat} {ops : List Op} {e : Event} :
    e ∈ b.trace claimed ops ↔ ∃ before op rest, ops = before ++ op :: rest ∧
      e = b.event (b.after claimed before) op := by
  induction ops generalizing claimed with
  | nil => simp [trace]
  | cons op ops ih =>
    rw [trace, List.mem_cons, ih]
    constructor
    · rintro (rfl | ⟨before, o, rest, rfl, rfl⟩)
      · exact ⟨[], op, ops, rfl, rfl⟩
      · exact ⟨op :: before, o, rest, rfl, rfl⟩
    · rintro ⟨before, o, rest, hops, rfl⟩
      cases before with
      | nil =>
        obtain ⟨rfl, rfl⟩ := List.cons.inj hops
        exact Or.inl rfl
      | cons p before =>
        obtain ⟨rfl, rfl⟩ := List.cons.inj hops
        exact Or.inr ⟨before, o, rest, rfl, rfl⟩

/-- After a run, the starts claimed are the ones from before and the ones that its uses marked. -/
theorem mem_after {b : Binder} {claimed : List Nat} {ops : List Op} {x : Nat} :
    x ∈ b.after claimed ops ↔ x ∈ claimed ∨ ∃ e ∈ b.trace claimed ops, x ∈ e.marks := by
  induction ops generalizing claimed with
  | nil => simp [after, trace]
  | cons op ops ih =>
    rw [after, ih, mem_step, trace]
    have hm : b.marks claimed op = (b.event claimed op).marks := rfl
    simp only [List.mem_cons, exists_eq_or_imp, hm]
    tauto

end ComponentDoc.Comment.Binder
