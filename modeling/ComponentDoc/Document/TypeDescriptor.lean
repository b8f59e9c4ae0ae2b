import ComponentDoc.Text.Blank
import ComponentDoc.Text.Quoted

/-!
Types as a document describes them: a name, a constant string, or a union of such. What is not known is
the type `any`.
-/
namespace ComponentDoc

open Text

inductive TypeDescriptor where
  | named (name : String)
  | const (value : String)
  | union (members : List TypeDescriptor)
deriving Repr, Inhabited

namespace TypeDescriptor

def any : TypeDescriptor :=
  .named "any"

def function : TypeDescriptor :=
  .named "function"

mutual

/-- A constant is written as a quoted string, a union with bars between its members. -/
def text : TypeDescriptor → String
  | .named name => name
  | .const value => quoted value
  | .union members => "|".intercalate (texts members)

def texts : List TypeDescriptor → List String
  | [] => []
  | t :: ts => t.text :: texts ts

end

def isAny : TypeDescriptor → Bool
  | .named name => name == "any"
  | _ => false

/-- The inside of a text that has `q` at both ends. -/
def unquote? (q : Char) : List Char → Option (List Char)
  | [] => none
  | c :: cs =>
    if c != q then none
    else match cs.reverse with
      | d :: inside => if d == q then some inside.reverse else none
      | [] => none

/-- One member of a type tag: a constant if it is quoted, else a name. -/
def ofTagMember (cs : List Char) : TypeDescriptor :=
  match (unquote? '"' cs).or (unquote? '\'' cs) with
  | some value => .const (String.ofList value)
  | none => .named (String.ofList cs)

/-- The text of a type tag without its braces; what comes after the closing one is prose. -/
def tagBody (payload : List Char) : List Char :=
  match trim payload with
  | '\x7b' :: rest =>
    match cutAt? '\x7d' rest with
    | some (inside, _) => trim inside
    | none => '\x7b' :: rest
  | cs => cs

/-- The type that a tag such as `{string|number} text` names. -/
def ofTag? (payload : List Char) : Option TypeDescriptor :=
  let body := tagBody payload
  if body.isEmpty then none
  else match splitOn '|' body with
    | [member] => some (ofTagMember (trim member))
    | members => some (.union (members.map fun m => ofTagMember (trim m)))

end TypeDescriptor

end ComponentDoc
