import ComponentDoc.Text.Blank
import ComponentDoc.Text.Letter
import ComponentDoc.Text.Offset

namespace ComponentDoc.Text

/-- The text after a mark, if it starts with it. -/
def after? (mark cs : List Char) : Option (List Char) :=
  if mark.isPrefixOf cs then some (cs.drop mark.length) else none

/-- Cuts at the first place where the mark stands, which neither part keeps. -/
def cutAtMark? (mark : List Char) : List Char → Option (List Char × List Char)
  | [] => if mark.isEmpty then some ([], []) else none
  | c :: cs =>
    match after? mark (c :: cs) with
    | some rest => some ([], rest)
    | none => (cutAtMark? mark cs).map fun (before, rest) => (c :: before, rest)

/-- A word ends here: no word character follows. -/
def endsWord : List Char → Bool
  | [] => true
  | c :: _ => !isWordChar c

/-- Whether the mark stands anywhere in the text. -/
def hasMark (mark cs : List Char) : Bool :=
  (cutAtMark? mark cs).isSome

/-- Whether a property holds of the rest of the text from some place on. -/
def anySuffix (p : List Char → Bool) : List Char → Bool
  | [] => p []
  | c :: cs => p (c :: cs) || anySuffix p cs

end ComponentDoc.Text
