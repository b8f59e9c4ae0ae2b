import ComponentDoc.Text.Surrogate

/-!
JSON values. The members of an object keep their order. A number is known by its spelling, and a string
or key may be spelled with half of a surrogate pair.
-/
namespace ComponentDoc

open Text

inductive Json where
  | null
  | bool (value : Bool)
  | number (spelling : List Char)
  | string (value : StringValue)
  | array (items : List Json)
  | object (members : List (StringValue × Json))
deriving Repr, Inhabited

namespace Json

def text (value : String) : Json :=
  .string (.text value)

def nat (n : Nat) : Json :=
  .number (Nat.toDigits 10 n)

def texts (values : List String) : Json :=
  .array (values.map text)

/-- An object with these members in this order. -/
def record (members : List (String × Json)) : Json :=
  .object (members.map fun (key, value) => (.text key, value))

/-- What may be missing is `null`. -/
def optional {α : Type} (encode : α → Json) : Option α → Json
  | some a => encode a
  | none => .null

end Json

end ComponentDoc
