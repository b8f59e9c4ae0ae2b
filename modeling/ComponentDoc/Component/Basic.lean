import ComponentDoc.Component.Block
import ComponentDoc.Path.Basic
import ComponentDoc.Script.Parse

/-!
A component file taken apart: its scripts, read, and its markup, which has the layout of the file with
scripts and styles blanked out, so that an offset means the same place in both.
-/
namespace ComponentDoc

open Text

/-- Why no document can be made of a component. -/
inductive ExtractError where
  /-- A script is not valid; the offset counts from the start of the file. -/
  | invalidScript (fault : Script.Fault)
  | unresolvedReference (name : String)
  | unsupportedDialect (version : Nat)
deriving DecidableEq, Repr, Inhabited

def ExtractError.message : ExtractError → String
  | .invalidScript fault => "syntax error: " ++ fault.cause.message ++ " (at byte " ++ toString fault.offset ++ ")"
  | .unresolvedReference name =>
    "unresolved reference '" ++ name ++ "': no matching declaration or import"
  | .unsupportedDialect version =>
    "unsupported svelte dialect version " ++ toString version ++ ", expected 2 or 3"

/-- A script of a component. The offsets in its items count from its own start. -/
structure ScriptBlock where
  isModule : Bool
  isTypeScript : Bool
  /-- Where the script starts in the file. -/
  offset : Nat
  items : List Script.Item
  /-- The comments, by their place in the file. -/
  comments : List Comment.Source

namespace ScriptBlock

/-- The place in the file of an offset in the script. -/
def place (script : ScriptBlock) (offset : Nat) : Nat :=
  script.offset + offset

def range (script : ScriptBlock) (span : Span) : Span :=
  span.shift script.offset

/-- Reads the text of a script that starts at an offset. -/
def read (text : List Char) (offset : Nat) (isModule isTypeScript : Bool) :
    Except ExtractError ScriptBlock :=
  match Script.parse isTypeScript text with
  | .ok program =>
    .ok { isModule, isTypeScript, offset, items := program.items,
          comments := program.comments.map (·.shift offset) }
  | .error fault => .error (.invalidScript ⟨fault.cause, offset + fault.offset⟩)

end ScriptBlock

structure Component where
  name : Option String
  source : List Char
  markup : List Char
  scripts : List ScriptBlock
  markupComments : List Comment.Source

namespace Component

/-- Blocks of a name that are not commented out. -/
def liveBlocks (name source : List Char) : List Block :=
  let comments := htmlComments source
  (blocks name source).filter fun b => !comments.any (·.span.has b.span.start)

/-- Takes a component file apart; the path names the component. -/
def parse (source : List Char) (path : Option String) : Except ExtractError Component := do
  let scriptBlocks := liveBlocks "script".toList source
  let scripts ← scriptBlocks.mapM fun b =>
    ScriptBlock.read b.content b.contentStart b.isModule b.isTypeScript
  let styles := liveBlocks "style".toList source
  let markup := blankOut ((scriptBlocks ++ styles).map Block.span) 0 source
  return { name := path.bind fun p => (Path.stem? p.toList).map String.ofList
           source, markup, scripts, markupComments := htmlComments markup }

/-- Comments in order of their start. -/
def sortComments (comments : List Comment.Source) : List Comment.Source :=
  comments.mergeSort fun a b => Nat.ble a.span.start b.span.start

/-- Every comment of the component, in order. -/
def comments (c : Component) : List Comment.Source :=
  sortComments ((c.scripts.map ScriptBlock.comments).flatten ++ c.markupComments)

end Component

end ComponentDoc
