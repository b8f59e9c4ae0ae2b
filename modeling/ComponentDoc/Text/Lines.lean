/-!
Lines of a text. A line ends with a line feed or with a carriage return and a line feed; a carriage
return elsewhere belongs to its line, and an ending at the very end opens no further line.
-/
namespace ComponentDoc.Text

def lines : List Char → List (List Char)
  | [] => []
  | '\n' :: cs => [] :: lines cs
  | '\r' :: '\n' :: cs => [] :: lines cs
  | c :: cs =>
    match lines cs with
    | [] => [[c]]
    | l :: ls => (c :: l) :: ls

def joinLines : List (List Char) → List Char
  | [] => []
  | [l] => l
  | l :: ls => l ++ '\n' :: joinLines ls

end ComponentDoc.Text
