import ComponentDoc.Cli.Run

/-!
The program. It takes a picture of the files that a command may look at, runs the command on it, and
does what the outcome asks for.
-/
namespace ComponentDoc.Main

/-- Whether the content of a file below a folder may be asked for. -/
def mayBeRead (path : String) : Bool :=
  isComponentFile path.toList || Path.fileName? path.toList == some Config.fileName.toList

/-- The tree at a path, if there is one. Below a folder, files that are not asked for are left empty. -/
partial def readTree? (isRoot : Bool) (path : String) : IO (Option FileTree) := do
  let place := (← IO.currentDir) / path
  if ← place.isDir then
    let mut entries : List (List Char × FileTree) := []
    for entry in ← place.readDir do
      if let some tree ← readTree? false (path ++ "/" ++ entry.fileName) then
        entries := (entry.fileName.toList, tree) :: entries
    return some (.folder entries)
  else if ← place.pathExists then
    if isRoot || mayBeRead path then
      return some (.file (← IO.FS.readBinFile place))
    else return some (.file ByteArray.empty)
  else return none

/-- Adds what stands at an absolute path to a tree. -/
def addPath (tree : FileTree) (path : List Char) : IO FileTree := do
  let names := (Text.splitOn '/' path).filter fun name => !Path.isIdle name
  match ← readTree? true (String.ofList path) with
  | some found => return FileTree.put found names tree
  | none => return tree

/-- An absolute path without steps back. -/
def settled (path : List Char) : List Char :=
  let names := (Path.parts path).foldl (fun names part => match part with
    | .name name => names ++ [name]
    | .parent => names.dropLast
    | _ => names) []
  Path.ofPieces ([] :: names)

/-- The part of an include before its first wildcard. -/
def fixedPart (text : List Char) : List Char :=
  if Glob.hasWildcard text then
    Path.ofPieces ((Text.splitOn '/' text).takeWhile fun piece => !Glob.hasWildcard piece)
  else text

/-- The files that a command may look at: the configuration around the work folder, and the given paths
or the includes. -/
def filesFor (args : List String) : IO Files := do
  let workFolder := (← IO.currentDir).toString.toList
  let mut tree := FileTree.put (.folder [])
    ((Text.splitOn '/' workFolder).filter (!·.isEmpty)) (.folder [])
  for folder in workFolder :: Path.above workFolder do
    for name in [Config.fileName, ".git"] do
      let path := Path.join folder name.toList
      if ← ((← IO.currentDir) / String.ofList path).pathExists then
        tree ← if name == Config.fileName then addPath tree path
          else pure (FileTree.put (.folder []) ((Text.splitOn '/' path).filter (!·.isEmpty)) tree)
  let files : Files := ⟨tree, workFolder⟩
  match Cli.readArgs args, files.loadConfig workFolder with
  | .ok (some (.parse command)), .ok loaded =>
    let roots := if command.paths.isEmpty then
        loaded.config.includes.map fun text => Path.join loaded.baseFolder (fixedPart text.toList)
      else command.paths.map fun path => Path.join workFolder path.toList
    for root in roots do
      tree ← addPath tree (settled root)
    return { files with root := tree }
  | _, _ => return files

end ComponentDoc.Main

def main (args : List String) : IO UInt32 := do
  let outcome := ComponentDoc.Cli.run (← ComponentDoc.Main.filesFor args) args
  if let some text := outcome.newConfig then
    IO.FS.writeFile ComponentDoc.Config.fileName text
  IO.print outcome.stdout
  for line in outcome.stderr do
    IO.eprintln line
  return outcome.code.toUInt32
