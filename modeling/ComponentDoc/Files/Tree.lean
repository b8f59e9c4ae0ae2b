import ComponentDoc.Path.Relation

/-!
A file tree as a value, and paths followed in it. A path leads through folders only: what comes after a
file in it, a slash at the end included, leads nowhere.
-/
namespace ComponentDoc

open Text

inductive FileTree where
  | file (content : ByteArray)
  | folder (entries : List (List Char × FileTree))
deriving Inhabited

namespace FileTree

def isFile : FileTree → Bool
  | .file _ => true
  | .folder _ => false

def isFolder : FileTree → Bool
  | .file _ => false
  | .folder _ => true

def entries : FileTree → List (List Char × FileTree)
  | .file _ => []
  | .folder entries => entries

def child? (tree : FileTree) (name : List Char) : Option FileTree :=
  (tree.entries.find? (·.1 == name)).map (·.2)

/-- Replaces the entry of a name, or adds it at the end. -/
def setEntry (name : List Char) (tree : FileTree) :
    List (List Char × FileTree) → List (List Char × FileTree)
  | [] => [(name, tree)]
  | e :: entries => if e.1 == name then (name, tree) :: entries else e :: setEntry name tree entries

/-- Puts a tree at the end of a way through folders, which are made where they are missing. -/
def put (leaf : FileTree) : List (List Char) → FileTree → FileTree
  | [], _ => leaf
  | name :: names, tree =>
    .folder (setEntry name (put leaf names ((tree.child? name).getD (.folder []))) tree.entries)

mutual

/-- The files of a tree with their paths, the tree itself having this path. -/
def filesBelow (path : List Char) : FileTree → List (List Char)
  | .file _ => [path]
  | .folder entries => filesOfEntries path entries

def filesOfEntries (path : List Char) : List (List Char × FileTree) → List (List Char)
  | [] => []
  | (name, tree) :: entries =>
    tree.filesBelow (Path.join path name) ++ filesOfEntries path entries

end

end FileTree

/-- The files that a program sees, and the absolute path of the folder that it works in. -/
structure Files where
  root : FileTree
  workFolder : List Char

namespace Files

/-- Follows one piece of a path; the list holds what the path leads through, the innermost first. -/
def step? (piece : List Char) : List FileTree → Option (List FileTree)
  | [] => none
  | .file _ :: _ => none
  | .folder entries :: outer =>
    let trail := .folder entries :: outer
    if Path.isIdle piece then some trail
    else if piece == ['.', '.'] then some (if outer.isEmpty then trail else outer)
    else ((FileTree.folder entries).child? piece).map (· :: trail)

def follow? (trail : List FileTree) : List (List Char) → Option (List FileTree)
  | [] => some trail
  | piece :: pieces => (step? piece trail).bind fun trail => follow? trail pieces

/-- What stands at a path. -/
def get? (files : Files) (path : List Char) : Option FileTree :=
  if path.isEmpty then none
  else (follow? [files.root] (splitOn '/' (Path.join files.workFolder path)).tail).bind List.head?

def isThere (files : Files) (path : List Char) : Bool :=
  (files.get? path).isSome

def isFile (files : Files) (path : List Char) : Bool :=
  (files.get? path).any FileTree.isFile

def isFolder (files : Files) (path : List Char) : Bool :=
  (files.get? path).any FileTree.isFolder

end Files

end ComponentDoc
