import ComponentDoc.Text.Blank

/-!
Paths as lists of components. Repeated slashes, a slash at the end and `.` anywhere but at the front do
not count.
-/
namespace ComponentDoc

open Text

/-- One component of a path. -/
inductive Path.Part where
  | root
  /-- `.` at the front of a relative path. -/
  | here
  | parent
  | name (name : List Char)
deriving DecidableEq, Repr, Inhabited

namespace Path

def Part.text : Part → List Char
  | .root => ['/']
  | .here => ['.']
  | .parent => ['.', '.']
  | .name text => text

/-- A component after the first. -/
def part? (cs : List Char) : Option Part :=
  if cs.isEmpty || cs == ['.'] then none
  else if cs == ['.', '.'] then some .parent
  else some (.name cs)

/-- The components of a path. -/
def parts (path : List Char) : List Part :=
  match splitOn '/' path with
  | [] => []
  | first :: rest =>
    let more := rest.filterMap part?
    if first.isEmpty then
      if path.isEmpty then [] else .root :: more
    else if first == ['.'] then .here :: more
    else (part? first).toList ++ more

/-- The last component, if it is a name. -/
def fileName? (path : List Char) : Option (List Char) :=
  match (parts path).getLast? with
  | some (.name name) => some name
  | _ => none

/-- A file name cut at its last dot; a dot at the front is part of the name. -/
def splitExtension (name : List Char) : List Char × Option (List Char) :=
  let extension := (name.reverse.takeWhile (· != '.')).reverse
  let stem := name.take (name.length - extension.length - 1)
  if Nat.blt extension.length name.length && !stem.isEmpty then (stem, some extension) else (name, none)

/-- The last component without its extension. -/
def stem? (path : List Char) : Option (List Char) :=
  (fileName? path).map fun name => (splitExtension name).1

def extension? (path : List Char) : Option (List Char) :=
  (fileName? path).bind fun name => (splitExtension name).2

end Path

end ComponentDoc
