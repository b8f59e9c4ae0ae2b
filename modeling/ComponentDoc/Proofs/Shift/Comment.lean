import ComponentDoc.Extract
import ComponentDoc.Proofs.Comment.Run
import ComponentDoc.Proofs.Shift.Dialect

namespace ComponentDoc

open Text

namespace Comment.Binder

/-- The binder for the file that has a text before that of another. -/
def behind (lead : List Char) (b : Binder) : Binder :=
  { b with source := lead ++ b.source, comments := b.comments.map (·.shift (byteLength lead)) }

/-- A use of a binder so many bytes further on. -/
def Op.shift (n : Nat) : Op → Op
  | .bind anchors => .bind (anchors.map (n + ·))
  | .trailing stop => .trailing (n + stop)
  | .claim start => .claim (n + start)

/-- What a use gives back, with the claimed starts so many bytes further on. -/
def shiftClaims {α : Type} (n : Nat) (p : α × List Nat) : α × List Nat :=
  (p.1, p.2.map (n + ·))

theorem narrow_map (f : Source → Source) (p : Source → Bool) (comments : List Source)
    (rounds base size : Nat) :
    narrow p (comments.map f) rounds base size = narrow (fun c => p (f c)) comments rounds base size := by
  induction rounds generalizing base size with
  | zero => rfl
  | succ rounds ih => simp only [narrow, List.getElem?_map, Option.any_map, ih]

theorem partitionPoint_map (f : Source → Source) (p : Source → Bool) (comments : List Source) :
    partitionPoint p (comments.map f) = partitionPoint (fun c => p (f c)) comments := by
  simp only [partitionPoint, List.length_map, narrow_map, List.getElem?_map, Option.any_map]

variable (lead : List Char) (b : Binder)

theorem isClose_behind (start stop maxBlankLines : Nat) :
    (b.behind lead).isClose (byteLength lead + start) (byteLength lead + stop) maxBlankLines =
      b.isClose start stop maxBlankLines := by
  simp only [isClose, behind, slice?_append]

theorem endingBefore_behind (place : Nat) :
    (b.behind lead).endingBefore (byteLength lead + place) =
      (b.endingBefore place).map (·.shift (byteLength lead)) := by
  have hp : (fun c : Source => Nat.ble (c.shift (byteLength lead)).span.stop (byteLength lead + place)) =
      fun c => Nat.ble c.span.stop place := by
    funext c
    rw [Bool.eq_iff_iff]
    simp [Source.shift, Span.shift]
  rw [endingBefore, endingBefore, behind, partitionPoint_map, hp, List.map_take]

theorem startingFrom_behind (place : Nat) :
    (b.behind lead).startingFrom (byteLength lead + place) =
      (b.startingFrom place).map (·.shift (byteLength lead)) := by
  have hp : (fun c : Source => Nat.blt (c.shift (byteLength lead)).span.start (byteLength lead + place)) =
      fun c => Nat.blt c.span.start place := by
    funext c
    rw [Bool.eq_iff_iff]
    simp [Source.shift, Span.shift, Nat.blt_eq]
  rw [startingFrom, startingFrom, behind, partitionPoint_map, hp, List.map_drop]

theorem before?_behind (anchor : Nat) :
    (b.behind lead).before? (byteLength lead + anchor) =
      (b.before? anchor).map fun p =>
        (p.1.shift (byteLength lead), p.2.map (·.shift (byteLength lead))) := by
  unfold before?
  rw [endingBefore_behind, ← List.map_reverse]
  cases (b.endingBefore anchor).reverse with
  | nil => rfl
  | cons c earlier =>
    change (if (b.behind lead).isClose (byteLength lead + c.span.stop) (byteLength lead + anchor)
      b.maxBlankLines then _ else _) = Option.map _ (if _ then _ else _)
    rw [isClose_behind]
    split_ifs <;> rfl

theorem linesAbove_behind (c : Source) (earlier : List Source) :
    (b.behind lead).linesAbove (c.shift (byteLength lead)) (earlier.map (·.shift (byteLength lead))) =
      (b.linesAbove c earlier).map (·.shift (byteLength lead)) := by
  induction earlier generalizing c with
  | nil => rfl
  | cons d earlier ih =>
    simp only [List.map_cons, linesAbove]
    change (if d.style == .line && (b.behind lead).isClose (byteLength lead + d.span.stop)
      (byteLength lead + c.span.start) 0 then _ else _) = _
    rw [isClose_behind, ih]
    split_ifs <;> rfl

theorem group_behind (c : Source) (earlier : List Source) :
    (b.behind lead).group (c.shift (byteLength lead)) (earlier.map (·.shift (byteLength lead))) =
      (b.group c earlier).map (·.shift (byteLength lead)) := by
  unfold group
  rw [linesAbove_behind]
  change (if c.style == .line then _ else _) = _
  split_ifs
  · rw [List.map_append, List.map_reverse]
    rfl
  · rfl

theorem nearest?_behind (anchors : List Nat) :
    (b.behind lead).nearest? (anchors.map (byteLength lead + ·)) =
      (b.nearest? anchors).map fun p =>
        (p.1.shift (byteLength lead), p.2.map (·.shift (byteLength lead))) := by
  unfold nearest?
  rw [List.findSome?_map, List.map_findSome?]
  exact congrArg (List.findSome? · _) (funext fun anchor => b.before?_behind lead anchor)

theorem follower?_behind (stop : Nat) :
    (b.behind lead).follower? (byteLength lead + stop) =
      (b.follower? stop).map (·.shift (byteLength lead)) := by
  unfold follower?
  rw [startingFrom_behind]
  cases b.startingFrom stop with
  | nil => rfl
  | cons c rest =>
    have hgap : slice? (b.behind lead).source (byteLength lead + stop)
        (c.shift (byteLength lead)).span.start = slice? b.source stop c.span.start := slice?_append ..
    simp only [List.map_cons, hgap]
    cases slice? b.source stop c.span.start with
    | none => rfl
    | some gap =>
      change (if isTrailingGap c.style gap then _ else _) = Option.map _ (if _ then _ else _)
      split_ifs <;> rfl

theorem contains_map_add (n start : Nat) (claimed : List Nat) :
    (claimed.map (n + ·)).contains (n + start) = claimed.contains start := by
  rw [Bool.eq_iff_iff]
  simp

/-- Each use takes the same comments further on. -/
theorem taken_behind (claimed : List Nat) (op : Op) :
    (b.behind lead).taken (claimed.map (byteLength lead + ·)) (op.shift (byteLength lead)) =
      (b.taken claimed op).map (·.shift (byteLength lead)) := by
  cases op with
  | bind anchors =>
    simp only [taken, Op.shift, nearest?_behind]
    cases b.nearest? anchors with
    | none => rfl
    | some found =>
      obtain ⟨c, earlier⟩ := found
      change (if (claimed.map (byteLength lead + ·)).contains (byteLength lead + c.span.start) then _
        else _) = List.map _ (if claimed.contains c.span.start then [] else b.group c earlier)
      rw [contains_map_add, group_behind]
      split_ifs <;> rfl
  | trailing stop =>
    simp only [taken, Op.shift, follower?_behind]
    cases b.follower? stop with
    | none => rfl
    | some c =>
      change (if (claimed.map (byteLength lead + ·)).contains (byteLength lead + c.span.start) then _
        else _) = List.map _ (if claimed.contains c.span.start then [] else [c])
      rw [contains_map_add]
      split_ifs <;> rfl
  | claim start => rfl

theorem docOf?_shift (n : Nat) (cs : List Source) : docOf? (cs.map (·.shift n)) = docOf? cs := by
  cases cs with
  | nil => rfl
  | cons c cs =>
    simp only [docOf?, List.map_cons, List.map_map]
    rfl

theorem map_start_shift (n : Nat) (cs : List Source) :
    (cs.map (·.shift n)).map (·.span.start) = (cs.map (·.span.start)).map (n + ·) := by
  rw [List.map_map, List.map_map]
  rfl

theorem bind_behind (claimed anchors : List Nat) :
    (b.behind lead).bind (claimed.map (byteLength lead + ·)) (anchors.map (byteLength lead + ·)) =
      shiftClaims (byteLength lead) (b.bind claimed anchors) := by
  have htaken := b.taken_behind lead claimed (.bind anchors)
  rw [Op.shift] at htaken
  rw [bind_eq, bind_eq, htaken, docOf?_shift, map_start_shift, ← List.map_append]
  rfl

theorem bindTrailing_behind (claimed : List Nat) (stop : Nat) :
    (b.behind lead).bindTrailing (claimed.map (byteLength lead + ·)) (byteLength lead + stop) =
      shiftClaims (byteLength lead) (b.bindTrailing claimed stop) := by
  have htaken := b.taken_behind lead claimed (.trailing stop)
  rw [Op.shift] at htaken
  rw [bindTrailing_eq, bindTrailing_eq, htaken, docOf?_shift, map_start_shift, ← List.map_append]
  rfl

theorem claim_shift (n : Nat) (claimed : List Nat) (start : Nat) :
    claim (claimed.map (n + ·)) (n + start) = shiftClaims n (claim claimed start) := by
  unfold claim
  rw [contains_map_add]
  split_ifs <;> rfl

end Comment.Binder

variable (lead : List Char)

/-- An occurrence takes the same comment further on. -/
theorem Occurrence.comment_behind (o : Occurrence) (binder : Comment.Binder) (claimed : List Nat) :
    (o.shift (byteLength lead)).comment (binder.behind lead) (claimed.map (byteLength lead + ·)) =
      Comment.Binder.shiftClaims (byteLength lead) (o.comment binder claimed) := by
  unfold comment
  simp only [shift, Comment.Binder.bind_behind]
  cases binder.bind claimed o.anchors with
  | mk doc claimed =>
    cases doc with
    | some doc => rfl
    | none =>
      cases o.trailing with
      | none => rfl
      | some stop => exact binder.bindTrailing_behind lead claimed stop

theorem Component.comments_behind (c : Component) :
    (c.behind lead).comments = c.comments.map (·.shift (byteLength lead)) := by
  unfold comments sortComments
  rw [List.map_mergeSort (s := fun a b => Nat.ble a.span.start b.span.start)]
  · rw [List.map_append, List.map_flatten, List.map_map, behind, List.map_map]
    rfl
  · intro a _ b _
    rw [Bool.eq_iff_iff]
    simp [Comment.Source.shift, Span.shift]

theorem Component.binder_behind (c : Component) (dialect : Dialect) :
    (c.behind lead).binder dialect = (c.binder dialect).behind lead := by
  unfold binder
  rw [comments_behind]
  rfl

theorem Dialect.description_behind (c : Component) (dialect : Dialect) (binder : Comment.Binder)
    (claimed : List Nat) :
    dialect.description (c.behind lead) (binder.behind lead) (claimed.map (byteLength lead + ·)) =
      Comment.Binder.shiftClaims (byteLength lead) (dialect.description c binder claimed) := by
  cases dialect with
  | v2 =>
    simp only [description, Component.definitions_behind]
    cases c.definitions with
    | error e => rfl
    | ok definitions =>
      cases definitions with
      | nil => rfl
      | cons d definitions =>
        have hbind : (binder.behind lead).bind (claimed.map (byteLength lead + ·))
            [(d.shift (byteLength lead)).start] = _ := binder.bind_behind lead claimed [d.start]
        simp only [Except.map, List.map_cons, hbind]
        rfl
  | v3 =>
    have hfind : ((c.behind lead).markupComments.find? fun comment => (markedText? comment).isSome) =
        (c.markupComments.find? fun comment => (markedText? comment).isSome).map
          (·.shift (byteLength lead)) := by
      rw [Component.behind, List.find?_map]
      rfl
    simp only [description, hfind]
    cases c.markupComments.find? fun comment => (markedText? comment).isSome with
    | none => rfl
    | some comment =>
      exact congrArg (Prod.mk _)
        (congrArg Prod.snd (Comment.Binder.claim_shift (byteLength lead) claimed comment.span.start))

theorem Options.description_behind (options : Options) (c : Component) (dialect : Dialect) :
    options.description (c.behind lead) dialect =
      Comment.Binder.shiftClaims (byteLength lead) (options.description c dialect) := by
  unfold description
  rw [Component.binder_behind]
  split_ifs
  · exact dialect.description_behind lead c (c.binder dialect) []
  · rfl

end ComponentDoc
