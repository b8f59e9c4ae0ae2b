import ComponentDoc.Script.Grammar.Module

namespace ComponentDoc.Script

open Text

structure Program where
  items : List Item
  /-- The comments in order of their start, each once. -/
  comments : List Comment.Source

/-- Keeps the first of neighbours that start at the same place. -/
def dedupByStart : List Comment.Source → List Comment.Source
  | [] => []
  | [c] => [c]
  | c :: d :: rest =>
    if c.span.start == d.span.start then dedupByStart (c :: rest)
    else c :: dedupByStart (d :: rest)

/-- Comments in order of their start, each once. -/
def orderComments (comments : List Comment.Source) : List Comment.Source :=
  dedupByStart (comments.mergeSort fun a b => Nat.ble a.span.start b.span.start)

/-- A byte order mark at the start of a script does not count. -/
def stripMark : List Char → List Char
  | '\uFEFF' :: cs => cs
  | cs => cs

/-- How deep the grammar is taken for a text: each character opens a few levels at most. -/
def depthFor (text : List Char) : Nat :=
  16 * (text.length + 2)

/-- Reads the items of a script up to its end, or up to the fault that stops the reading. -/
def readItems (typescript : Bool) (source : List Char) : EStateM.Result Fault State (List Item) :=
  let text := stripMark source
  (Grammar.ofDepth (depthFor text)).items { typescript } ⟨Cursor.start text, [], none, []⟩

/-- Reads a script. A fault that stops the reading counts first, else the first fault noted. -/
def parse (typescript : Bool) (source : List Char) : Except Fault Program :=
  match readItems typescript source with
  | .error fault _ => .error fault
  | .ok items s =>
    match s.cursor.faults.getLast? with
    | some fault => .error fault
    | none => .ok ⟨items, orderComments s.cursor.comments.reverse⟩

end ComponentDoc.Script
