import ComponentDoc.Document.Entity
import ComponentDoc.Text.Offset

namespace ComponentDoc

open Text

/-- The number of characters before a byte offset. An offset that is on no character boundary, or past
the end, is left as it is. -/
def charOffset (source : List Char) (offset : Nat) : Nat :=
  if isAscii source then offset
  else match cutBytes? offset source with
    | some (before, _) => before.length
    | none => offset

def locate (source : List Char) (span : Span) : Location :=
  ⟨charOffset source span.start, charOffset source span.stop⟩

end ComponentDoc
