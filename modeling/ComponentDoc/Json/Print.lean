import ComponentDoc.Json.Basic
import ComponentDoc.Text.Quoted

namespace ComponentDoc.Json

open Text

/-- How the parts of a value are set apart. -/
structure Layout where
  /-- What comes before an item that is so many levels deep. -/
  lineBreak : Nat → List Char
  /-- What comes between a key and its value. -/
  colon : List Char

/-- Everything on one line, without blanks. -/
def Layout.compact : Layout :=
  ⟨fun _ => [], [':']⟩

/-- Two spaces for each level. -/
def Layout.pretty : Layout :=
  ⟨fun depth => '\n' :: List.replicate (2 * depth) ' ', [':', ' ']⟩

def quoteValue (value : StringValue) : List Char :=
  quote value.repaired.toList

mutual

/-- The text of a value that is `depth` levels deep. -/
def render (layout : Layout) (depth : Nat) : Json → List Char
  | .null => "null".toList
  | .bool true => "true".toList
  | .bool false => "false".toList
  | .number spelling => spelling
  | .string value => quoteValue value
  | .array items =>
    if items.isEmpty then ['[', ']']
    else '[' :: (renderItems layout (depth + 1) [] items ++ layout.lineBreak depth ++ [']'])
  | .object members =>
    if members.isEmpty then ['\x7b', '\x7d']
    else '\x7b' :: (renderMembers layout (depth + 1) [] members ++ layout.lineBreak depth ++ ['\x7d'])

/-- The items of an array; the separator comes before the first of them. -/
def renderItems (layout : Layout) (depth : Nat) (separator : List Char) : List Json → List Char
  | [] => []
  | item :: items =>
    separator ++ layout.lineBreak depth ++ render layout depth item
      ++ renderItems layout depth [','] items

def renderMembers (layout : Layout) (depth : Nat) (separator : List Char) :
    List (StringValue × Json) → List Char
  | [] => []
  | (key, value) :: members =>
    separator ++ layout.lineBreak depth ++ quoteValue key ++ layout.colon
      ++ render layout depth value ++ renderMembers layout depth [','] members

end

def compact (json : Json) : String :=
  String.ofList (json.render .compact 0)

def pretty (json : Json) : String :=
  String.ofList (json.render .pretty 0)

end ComponentDoc.Json
