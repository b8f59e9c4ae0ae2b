import ComponentDoc.Document.Entity
import ComponentDoc.Json.Basic

/-! Documents as JSON values. What is empty or was not asked for is left out where a reader can tell. -/
namespace ComponentDoc

namespace TypeDescriptor

mutual

def toJson : TypeDescriptor → Json
  | .named name => .record [("kind", .text "type"), ("type", .text name), ("text", .text name)]
  | .const value =>
    .record [("kind", .text "const"), ("type", .text "string"),
      ("text", .text (TypeDescriptor.const value).text), ("value", .text value)]
  | .union members =>
    .record [("kind", .text "union"), ("type", .array (toJsons members)),
      ("text", .text (TypeDescriptor.union members).text)]

def toJsons : List TypeDescriptor → List Json
  | [] => []
  | t :: ts => t.toJson :: toJsons ts

end

end TypeDescriptor

def Comment.Keyword.toJson (keyword : Comment.Keyword) : Json :=
  .record [("name", .text keyword.name), ("description", .text keyword.description)]

def Location.toJson (location : Location) : Json :=
  .record [("start", .nat location.start), ("end", .nat location.stop)]

def Param.toJson (param : Param) : Json :=
  .record [("name", .text param.name), ("type", param.type.toJson),
    ("description", .optional .text param.description), ("optional", .bool param.isOptional)]

/-- A member that is left out if there is nothing to list. -/
def listMember {α : Type} (key : String) (encode : α → Json) (items : List α) :
    List (String × Json) :=
  if items.isEmpty then [] else [(key, .array (items.map encode))]

def Entity.toJson (entity : Entity) : Json :=
  .record ([
    ("name", .text entity.name),
    ("localName", .optional .text entity.localName),
    ("originalName", .optional .text entity.sourceName),
    ("importPath", .optional .text entity.importPath),
    ("kind", .text entity.kind.name),
    ("visibility", .text entity.visibility.name),
    ("static", .bool entity.isStatic),
    ("type", entity.type.toJson),
    ("description", .optional .text entity.description),
    ("keywords", .array (entity.keywords.map Comment.Keyword.toJson))]
    ++ (entity.locations.map fun ls => ("locations", Json.array (ls.map Location.toJson))).toList
    ++ listMember "params" Param.toJson entity.params
    ++ listMember "dependencies" Json.text entity.dependencies)

/-- The name of the list of entities of a kind. -/
def EntityKind.listName : EntityKind → String
  | .data => "data"
  | .computed => "computed"
  | .method => "methods"
  | .event => "events"
  | .slot => "slots"

def Document.toJson (document : Document) : Json :=
  .record ([
    ("version", .nat document.version),
    ("name", .optional .text document.name),
    ("description", .optional .text document.description)]
    ++ EntityKind.all.map fun kind =>
      (kind.listName, .array ((document.entities kind).map Entity.toJson)))

end ComponentDoc
