import ComponentDoc.Document.Kind
import ComponentDoc.Text.Blank
import ComponentDoc.Text.Lines

/-!
Documentation comments: lines of description, and keywords on lines of their own. A keyword is a line
that starts with `@`; stars at the start of a line are decoration.
-/
namespace ComponentDoc.Comment

open Text

structure Keyword where
  name : String
  description : String
deriving DecidableEq, Repr, Inhabited

structure Doc where
  description : Option String
  keywords : List Keyword
deriving DecidableEq, Repr, Inhabited

/-- What one line of a comment says. -/
inductive Line where
  | keyword (keyword : Keyword)
  | text (text : List Char)
  | blank

/-- A line without its decoration. -/
def undecorated (raw : List Char) : List Char :=
  trim ((trim raw).dropWhile (· == '*'))

def Line.parse (raw : List Char) : Line :=
  match undecorated raw with
  | [] => .blank
  | '@' :: tag =>
    let (name, rest) := match cutAtBlank? tag with
      | some (name, rest) => (name, trim rest)
      | none => (tag, [])
    if name.isEmpty then .blank else .keyword ⟨String.ofList name, String.ofList rest⟩
  | line => .text line

def Line.keyword? : Line → Option Keyword
  | .keyword k => some k
  | _ => none

def Line.text? : Line → Option (List Char)
  | .text t => some t
  | _ => none

/-- Reads the text between the delimiters of a comment. -/
def Doc.parse (text : List Char) : Doc :=
  let parsed := (lines text).map Line.parse
  let description := parsed.filterMap Line.text?
  { description := if description.isEmpty then none else some (String.ofList (joinLines description))
    keywords := parsed.filterMap Line.keyword? }

namespace Doc

/-- The first keyword of a name. -/
def keyword? (doc : Doc) (name : String) : Option Keyword :=
  doc.keywords.find? (·.name == name)

/-- The visibility that the first keyword naming one asks for. -/
def visibility? (doc : Doc) : Option Visibility :=
  doc.keywords.findSome? fun k => Visibility.ofName? k.name

/-- A parameter keyword without its type; `none` if the type is not closed. -/
def afterType? (cs : List Char) : Option (List Char) :=
  match cs with
  | '\x7b' :: typed => (cutAt? '\x7d' typed).map fun (_, rest) => trim rest
  | cs => some cs

/-- A parameter's name without the brackets and the default value of an optional one. -/
def paramName (cs : List Char) : List Char :=
  (dropEndWhile (· == ']') (cs.dropWhile (· == '['))).takeWhile (· != '=')

/-- The name and the description in the text of a parameter keyword. -/
def readParam? (description : List Char) : Option (List Char × List Char) := do
  let rest ← afterType? (trim description)
  let (name, text) := (cutAtBlank? rest).getD (rest, [])
  return (paramName name, trim ((trim text).dropWhile (· == '-')))

/-- What the keywords say about a parameter. -/
def paramDescription? (doc : Doc) (param : String) : Option String :=
  (doc.keywords.filter (·.name == "param")).findSome? fun k =>
    match readParam? k.description.toList with
    | some (name, text) =>
      if name == param.toList && !text.isEmpty then some (String.ofList text) else none
    | none => none

end Doc

end ComponentDoc.Comment
