/-!
Byte offsets into a text. A text is a list of characters; the offset of a place in it is the number of
UTF-8 bytes before that place, so only some offsets fall on a character boundary.
-/
namespace ComponentDoc.Text

/-- A half-open range of byte offsets. -/
structure Span where
  start : Nat
  stop : Nat
deriving DecidableEq, Repr, Inhabited

def Span.has (s : Span) (offset : Nat) : Bool :=
  Nat.ble s.start offset && Nat.blt offset s.stop

def Span.shift (s : Span) (n : Nat) : Span :=
  ⟨n + s.start, n + s.stop⟩

def byteLength : List Char → Nat
  | [] => 0
  | c :: cs => c.utf8Size + byteLength cs

@[simp] theorem byteLength_nil : byteLength [] = 0 := rfl

@[simp] theorem byteLength_cons (c : Char) (cs : List Char) :
    byteLength (c :: cs) = c.utf8Size + byteLength cs := rfl

theorem byteLength_append (xs ys : List Char) :
    byteLength (xs ++ ys) = byteLength xs + byteLength ys := by
  induction xs with
  | nil => simp
  | cons c xs ih => simp [ih, Nat.add_assoc]

/-- Cuts a text at a byte offset; `none` off a character boundary or past the end. -/
def cutBytes? : Nat → List Char → Option (List Char × List Char)
  | 0, cs => some ([], cs)
  | _ + 1, [] => none
  | n + 1, c :: cs =>
    if Nat.ble c.utf8Size (n + 1) then
      (cutBytes? (n + 1 - c.utf8Size) cs).map fun (before, after) => (c :: before, after)
    else none

/-- The text between two byte offsets; `none` when they are out of order, off a character boundary
or past the end. -/
def slice? (cs : List Char) (start stop : Nat) : Option (List Char) :=
  if Nat.ble start stop then do
    let (_, after) ← cutBytes? start cs
    let (inside, _) ← cutBytes? (stop - start) after
    return inside
  else none

def isAscii (cs : List Char) : Bool :=
  cs.all fun c => Nat.blt c.toNat 0x80

end ComponentDoc.Text
