import ComponentDoc.Files.Tree
import ComponentDoc.Glob.Pattern

/-!
The paths that a pattern describes in a file tree. The pattern is read component by component, so that
here a star stays within one component.
-/
namespace ComponentDoc.Glob

open Text

/-- Names of a folder with what they give, in order of the names. -/
def inOrder (found : List (List Char × List (List Char))) : List (List Char) :=
  ((found.mergeSort fun a b => Path.compareText a.1 b.1 != .gt).map (·.2)).flatten

mutual

/-- What is found at each entry below a folder at any depth, given what is found at one entry; an entry
comes before those below it. -/
def descend (visit : List Char → FileTree → List (List Char)) (path : List Char) :
    FileTree → List (List Char)
  | .file content => visit path (.file content)
  | .folder entries =>
    visit path (.folder entries) ++ inOrder (descendEntries visit path entries)

def descendEntries (visit : List Char → FileTree → List (List Char)) (path : List Char) :
    List (List Char × FileTree) → List (List Char × List (List Char))
  | [] => []
  | (name, tree) :: entries =>
    (name, descend visit (Path.join path name) tree) :: descendEntries visit path entries

end

/-- The names `..` and `.` as far as a pattern that starts with a dot describes them. -/
def dotNames (pattern : Pattern) : List (List Char) :=
  match pattern with
  | .char '.' :: _ => [['.', '.'], ['.']].filter pattern.fits
  | _ => []

/-- The paths below a path that the components of a pattern describe. With `foldersOnly`, files do not
count at the end. -/
def expand (files : Files) (foldersOnly : Bool) : List Pattern → List Char → List (List Char)
  | [], path => if !foldersOnly || files.isFolder path then [path] else []
  | pattern :: rest, path =>
    match files.get? path with
    | none => []
    | some tree =>
      if pattern.isAnyPath then
        match rest with
        | [] =>
          inOrder (descendEntries (fun found t => if t.isFolder then [found] else []) path tree.entries)
        | next :: rest =>
          inOrder (descendEntries
            (fun found _ =>
              if ((Path.fileName? found).any next.fits) then expand files foldersOnly rest found else [])
            path tree.entries)
      else match pattern.literal? with
        | some name =>
          let found := Path.join path name
          if if name == ['.'] || name == ['.', '.'] then tree.isFolder else files.isThere found then
            expand files foldersOnly rest found
          else []
        | none =>
          if tree.isFolder then
            (dotNames pattern).flatMap (fun name => expand files foldersOnly rest (Path.join path name))
              ++ inOrder ((tree.entries.filter fun e => pattern.fits e.1).map fun e =>
                (e.1, expand files foldersOnly rest (Path.join path e.1)))
          else []

/-- Two patterns of whole components in a row say no more than one. -/
def collapse : List Pattern → List Pattern
  | [] => []
  | [pattern] => [pattern]
  | p :: q :: rest =>
    if p.isAnyPath && q.isAnyPath then collapse (q :: rest) else p :: collapse (q :: rest)

/-- The components of the text of an absolute pattern; a slash at the end opens none. -/
def components (text : List Char) : List (List Char) :=
  let pieces := (splitOn '/' text).tail
  if pieces.getLast? == some [] then pieces.dropLast else pieces

/-- The paths that an absolute pattern describes. Each of its components has to be a pattern of its
own. -/
def paths (files : Files) (text : List Char) : Except Fault (List (List Char)) := do
  let _ ← Pattern.parse text
  let patterns ← (components text).mapM Pattern.parse
  return expand files (text.getLast? == some '/') (collapse patterns) ['/']

end ComponentDoc.Glob
