import ComponentDoc.Text.Offset

namespace ComponentDoc.Comment

open Text (Span)

inductive Style where
  | block
  | line
  | html
deriving DecidableEq, Repr, Inhabited

/-- A comment; its text is what stands between the delimiters, which the span covers too. -/
structure Source where
  style : Style
  span : Span
  text : List Char
deriving DecidableEq, Repr, Inhabited

def Source.shift (c : Source) (n : Nat) : Source :=
  { c with span := c.span.shift n }

end ComponentDoc.Comment
