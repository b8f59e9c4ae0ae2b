import ComponentDoc.Path.Basic

/-!
Paths in relation to each other: one seen from another, the folders above one, and the order of paths.
Two paths are the same if their components are, however they are written.
-/
namespace ComponentDoc.Path

open Text

def isAbsolute : List Char → Bool
  | '/' :: _ => true
  | _ => false

/-- A path seen from a base; an absolute path stands for itself. -/
def join (base path : List Char) : List Char :=
  if isAbsolute path || base.isEmpty then path
  else if base.getLast? == some '/' then base ++ path
  else base ++ '/' :: path

/-- Pieces with slashes between them. -/
def ofPieces : List (List Char) → List Char
  | [] => []
  | [piece] => piece
  | piece :: pieces => piece ++ '/' :: ofPieces pieces

/-- A piece between slashes that does not count, unless it is the first. -/
def isIdle (piece : List Char) : Bool :=
  piece.isEmpty || piece == ['.']

/-- A path by its first piece and the others, the last first. -/
def ofReversed (first : List Char) (pieces : List (List Char)) : List Char :=
  if first.isEmpty && pieces.isEmpty then ['/'] else ofPieces (first :: pieces.reverse)

/-- The paths of the folders around a path, the nearest first. The path is given by its first piece and
the others, the last first; the empty path is around each relative one. -/
def foldersAbove (first : List Char) : List (List Char) → List (List Char)
  | [] => if first.isEmpty then [] else [[]]
  | piece :: pieces =>
    if isIdle piece then foldersAbove first pieces
    else ofReversed first (pieces.dropWhile isIdle) :: foldersAbove first pieces

/-- The folders around a path, the nearest first. -/
def above (path : List Char) : List (List Char) :=
  match splitOn '/' path with
  | [] => []
  | first :: pieces => foldersAbove first pieces.reverse

/-- The folder that a path is in. -/
def parent? (path : List Char) : Option (List Char) :=
  (above path).head?

/-- The pieces that are left of a path after the components of a folder. -/
def dropParts? : List Part → List (List Char) → Option (List (List Char))
  | [], pieces => some pieces
  | _ :: _, [] => none
  | part :: parts, piece :: pieces =>
    match part? piece with
    | none => dropParts? (part :: parts) pieces
    | some found => if found == part then dropParts? parts pieces else none

/-- An absolute path that is inside an absolute folder, seen from there. -/
def relativeTo? (path folder : List Char) : Option (List Char) :=
  if isAbsolute path && isAbsolute folder then
    (dropParts? (parts folder).tail (splitOn '/' path).tail).map fun pieces =>
      ofPieces ((pieces.dropWhile isIdle).reverse.dropWhile isIdle).reverse
  else none

/-- Texts by code points, a text before its extensions. -/
def compareText : List Char → List Char → Ordering
  | [], [] => .eq
  | [], _ :: _ => .lt
  | _ :: _, [] => .gt
  | a :: as, b :: bs =>
    if Nat.blt a.toNat b.toNat then .lt
    else if Nat.blt b.toNat a.toNat then .gt
    else compareText as bs

/-- The root comes first, then `.`, then `..`, then names. -/
def Part.rank : Part → Nat
  | .root => 0
  | .here => 1
  | .parent => 2
  | .name _ => 3

def comparePart : Part → Part → Ordering
  | .name a, .name b => compareText a b
  | a, b => if Nat.blt a.rank b.rank then .lt else if Nat.blt b.rank a.rank then .gt else .eq

/-- Component by component, a path before those below it. -/
def compareParts : List Part → List Part → Ordering
  | [], [] => .eq
  | [], _ :: _ => .lt
  | _ :: _, [] => .gt
  | a :: as, b :: bs =>
    match comparePart a b with
    | .eq => compareParts as bs
    | other => other

/-- The first path is not after the second. -/
def precedes (a b : List Char) : Bool :=
  compareParts (parts a) (parts b) != .gt

/-- Leaves out each path that is the same as one before it. -/
def distinct : List (List Char) → List (List Char)
  | [] => []
  | path :: paths => path :: (distinct paths).filter fun other => parts other != parts path

/-- Paths in order, each once. -/
def sortDistinct (paths : List (List Char)) : List (List Char) :=
  (distinct paths).mergeSort precedes

end ComponentDoc.Path
