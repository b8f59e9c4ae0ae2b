import ComponentDoc.Comment.Source
import ComponentDoc.Text.Search

/-!
Parts of a component file that are not markup: scripts, styles and HTML comments. A part is found by its
delimiters alone, from left to right, and never overlaps the one before it of the same sort.
-/
namespace ComponentDoc.Component

open Text

/-- A script or style element. -/
structure Block where
  span : Span
  attributes : List Char
  content : List Char
  /-- Where the content starts. -/
  contentStart : Nat

/-- The rest after an opening tag, with its attributes. -/
def openTag? (name cs : List Char) : Option (List Char × List Char) := do
  let rest ← after? ('<' :: name) cs
  match rest with
  | '>' :: rest => some ([], rest)
  | c :: _ => if isBlank c then cutAt? '>' rest else none
  | [] => none

/-- The closing tag at the front of a text, and the rest after it. -/
def closeTag? (name cs : List Char) : Option (List Char × List Char) := do
  let rest ← after? ('<' :: '/' :: name) cs
  let blanks := rest.takeWhile isBlank
  match rest.dropWhile isBlank with
  | '>' :: rest => some ('<' :: '/' :: (name ++ blanks ++ ['>']), rest)
  | _ => none

/-- The text before the first closing tag, that tag, and the rest after it. -/
def cutAtClose? (name : List Char) : List Char → Option (List Char × List Char × List Char)
  | [] => none
  | c :: cs =>
    match closeTag? name (c :: cs) with
    | some (tag, rest) => some ([], tag, rest)
    | none => (cutAtClose? name cs).map fun (before, tag, rest) => (c :: before, tag, rest)

/-- The block at the front of a text that starts at an offset. -/
def blockAt? (name cs : List Char) (offset : Nat) : Option Block := do
  let (attributes, rest) ← openTag? name cs
  let contentStart := offset + (byteLength cs - byteLength rest)
  let (content, close, _) ← cutAtClose? name rest
  let stop := contentStart + byteLength content + byteLength close
  return ⟨⟨offset, stop⟩, attributes, content, contentStart⟩

/-- The blocks of a name in a text that starts at an offset; what comes before `taken` belongs to a
block already found. -/
def blocksFrom (name : List Char) (taken : Nat) : List Char → Nat → List Block
  | [], _ => []
  | c :: cs, offset =>
    if Nat.blt offset taken then blocksFrom name taken cs (offset + c.utf8Size)
    else match blockAt? name (c :: cs) offset with
      | some block => block :: blocksFrom name block.span.stop cs (offset + c.utf8Size)
      | none => blocksFrom name taken cs (offset + c.utf8Size)

/-- All blocks of a name in a text. -/
def blocks (name text : List Char) : List Block :=
  blocksFrom name 0 text 0

/-- The HTML comment at the front of a text that starts at an offset. -/
def htmlCommentAt? (cs : List Char) (offset : Nat) : Option Comment.Source := do
  let rest ← after? "<!--".toList cs
  let (text, _) ← cutAtMark? "-->".toList rest
  return ⟨.html, ⟨offset, offset + 7 + byteLength text⟩, text⟩

/-- The HTML comments in a text that starts at an offset; what comes before `taken` belongs to a comment
already found. -/
def htmlCommentsFrom (taken : Nat) : List Char → Nat → List Comment.Source
  | [], _ => []
  | c :: cs, offset =>
    if Nat.blt offset taken then htmlCommentsFrom taken cs (offset + c.utf8Size)
    else match htmlCommentAt? (c :: cs) offset with
      | some comment => comment :: htmlCommentsFrom comment.span.stop cs (offset + c.utf8Size)
      | none => htmlCommentsFrom taken cs (offset + c.utf8Size)

/-- All HTML comments in a text. -/
def htmlComments (text : List Char) : List Comment.Source :=
  htmlCommentsFrom 0 text 0

/-- The text with everything in the spans blanked out: each byte turns into a space, and lines stay. -/
def blankOut (spans : List Span) (offset : Nat) : List Char → List Char
  | [] => []
  | c :: cs =>
    let shown := if c != '\n' && spans.any (·.has offset) then List.replicate c.utf8Size ' ' else [c]
    shown ++ blankOut spans (offset + c.utf8Size) cs

/-- An attribute stands at the front: its name, an equals sign, perhaps a quote, and one of the values. -/
def assigns (name : List Char) (values : List (List Char)) (cs : List Char) : Bool :=
  match after? name cs with
  | none => false
  | some rest =>
    match rest.dropWhile isBlank with
    | '=' :: rest =>
      let value := rest.dropWhile isBlank
      let holds (cs : List Char) : Bool := values.any fun v => (after? v cs).any endsWord
      holds value || match value with
        | '"' :: rest => holds rest
        | '\'' :: rest => holds rest
        | _ => false
    | _ => false

def Block.isModule (block : Block) : Bool :=
  anySuffix (assigns "context".toList ["module".toList]) block.attributes

def Block.isTypeScript (block : Block) : Bool :=
  anySuffix (assigns "lang".toList ["ts".toList, "typescript".toList]) block.attributes

end ComponentDoc.Component
