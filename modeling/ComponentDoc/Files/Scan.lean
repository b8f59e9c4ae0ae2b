import ComponentDoc.Glob.Expand
import ComponentDoc.Text.Letter

namespace ComponentDoc

open Text

/-- What a scan found. -/
structure Scan where
  /-- The files in order, each once. -/
  files : List (List Char)
  /-- How many of the given paths lead nowhere. -/
  skipped : Nat

/-- The extension of component files, in lower case. -/
def componentExtension : List Char :=
  "svelte".toList

/-- The lower case form of an ASCII letter. -/
def asciiLower (c : Char) : Char :=
  if Nat.ble 65 c.toNat && Nat.ble c.toNat 90 then Char.ofNat (c.toNat + 32) else c

def isComponentFile (path : List Char) : Bool :=
  (Path.extension? path).any fun extension => extension.map asciiLower == componentExtension

namespace Files

/-- The paths that the includes of a base folder stand for: what a pattern describes, or else a path
that leads somewhere. An invalid pattern stands for nothing. -/
def resolveIncludes (files : Files) (base : List Char) (includes : List (List Char)) :
    List (List Char) :=
  includes.flatMap fun text =>
    let full := Path.join base text
    if Glob.hasWildcard text then
      match Glob.paths files full with
      | .ok paths => paths
      | .error _ => []
    else if files.isThere full then [full] else []

/-- The patterns among texts. -/
def validPatterns (texts : List (List Char)) : List Glob.Pattern :=
  texts.filterMap fun text => (Glob.Pattern.parse text).toOption

/-- The files that a root gives: a file gives itself, a folder the component files in it that no pattern
describes. -/
def filesOfRoot (files : Files) (ignored : List Glob.Pattern) (root : List Char) : List (List Char) :=
  match files.get? root with
  | none => []
  | some (.file _) => [root]
  | some (.folder entries) =>
    (FileTree.filesOfEntries root entries).filter fun path =>
      isComponentFile path && !ignored.any (·.fits path)

/-- The component files of the roots. -/
def scan (files : Files) (roots ignores : List (List Char)) : Scan :=
  { files := Path.sortDistinct (roots.flatMap (files.filesOfRoot (validPatterns ignores)))
    skipped := roots.countP fun root => !files.isThere root }

end Files

end ComponentDoc
