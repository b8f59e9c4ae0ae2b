import ComponentDoc.Comment.Doc
import ComponentDoc.Comment.Source

/-!
Which comment documents what. A comment stands before a place if only blanks come between them, with a
limited number of blank lines; line comments on lines that follow each other count as one. No comment
documents two things: the starts of those that are taken are kept apart from the binder.
-/
namespace ComponentDoc.Comment

open Text

structure Binder where
  source : List Char
  /-- The comments in order of their start. -/
  comments : List Source
  /-- Blank lines allowed between a comment and what it documents. -/
  maxBlankLines : Nat

namespace Binder

/-- Only blanks stand between two places, with at most so many blank lines. -/
def isClose (b : Binder) (start stop maxBlankLines : Nat) : Bool :=
  match slice? b.source start stop with
  | none => false
  | some gap => gap.all isBlank && Nat.ble (gap.countP (· == '\n')) (maxBlankLines + 1)

/-- Halves the `size` members from `base` on until one is left, and goes on with the second half where its first
member passes the test. A stretch cannot be halved more often than it is long. -/
def narrow (p : Source → Bool) (comments : List Source) : Nat → Nat → Nat → Nat
  | 0, base, _ => base
  | rounds + 1, base, size =>
    if Nat.ble size 1 then base
    else
      let half := size / 2
      narrow p comments rounds (if comments[base + half]?.any p then base + half else base) (size - half)

/-- How many comments come before the first that fails a test, if none that passes it comes after one that
fails. -/
def partitionPoint (p : Source → Bool) (comments : List Source) : Nat :=
  let base := narrow p comments comments.length 0 comments.length
  if comments[base]?.any p then base + 1 else base

/-- The comments up to the last one that ends before a place. -/
def endingBefore (b : Binder) (place : Nat) : List Source :=
  b.comments.take (partitionPoint (fun c => Nat.ble c.span.stop place) b.comments)

/-- The comments from the first one on that does not start before a place. -/
def startingFrom (b : Binder) (place : Nat) : List Source :=
  b.comments.drop (partitionPoint (fun c => Nat.blt c.span.start place) b.comments)

/-- The comments up to and including the last one that ends before a place, the last one first, if only
blanks separate it from the place. -/
def before? (b : Binder) (anchor : Nat) : Option (Source × List Source) :=
  match (b.endingBefore anchor).reverse with
  | [] => none
  | c :: earlier =>
    if b.isClose c.span.stop anchor b.maxBlankLines then some (c, earlier) else none

/-- The line comments right above a line comment, the nearest first. -/
def linesAbove (b : Binder) (c : Source) : List Source → List Source
  | [] => []
  | d :: earlier =>
    if d.style == .line && b.isClose d.span.stop c.span.start 0 then d :: b.linesAbove d earlier else []

/-- The comments that count as one with a comment, in order. -/
def group (b : Binder) (c : Source) (earlier : List Source) : List Source :=
  if c.style == .line then (b.linesAbove c earlier).reverse ++ [c] else [c]

/-- Takes the comment before the first of the places that has one. A comment that is taken already
documents nothing more. -/
def bind (b : Binder) (claimed : List Nat) : List Nat → Option Doc × List Nat
  | [] => (none, claimed)
  | anchor :: anchors =>
    match b.before? anchor with
    | none => b.bind claimed anchors
    | some (c, earlier) =>
      if claimed.contains c.span.start then (none, claimed)
      else
        let taken := b.group c earlier
        (some (Doc.parse (joinLines (taken.map Source.text))), taken.map (·.span.start) ++ claimed)

/-- A gap after code that a comment may trail: blanks on one line, and one comma before a line comment. -/
def isTrailingGap (style : Style) (gap : List Char) : Bool :=
  gap.all (fun c => c != '\n' && (isBlank c || (c == ',' && style == .line)))
    && Nat.ble (gap.countP (· == ',')) 1

/-- Takes the comment that follows code on its line. -/
def bindTrailing (b : Binder) (claimed : List Nat) (stop : Nat) : Option Doc × List Nat :=
  match b.startingFrom stop with
  | [] => (none, claimed)
  | c :: _ =>
    match slice? b.source stop c.span.start with
    | none => (none, claimed)
    | some gap =>
      if isTrailingGap c.style gap && !claimed.contains c.span.start then
        (some (Doc.parse c.text), c.span.start :: claimed)
      else (none, claimed)

/-- Takes the comment that starts at a place, and tells whether it was free. -/
def claim (claimed : List Nat) (start : Nat) : Bool × List Nat :=
  if claimed.contains start then (false, claimed) else (true, start :: claimed)

end Binder

end ComponentDoc.Comment
