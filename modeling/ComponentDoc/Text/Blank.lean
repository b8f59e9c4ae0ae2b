/-!
Blank characters and trimming. Prose is trimmed by the White_Space property of the Unicode standard;
markup is separated by the five ASCII blanks of its own grammar.
-/
namespace ComponentDoc.Text

/-- The White_Space property. -/
def isBlank (c : Char) : Bool :=
  let n := c.toNat
  (Nat.ble 9 n && Nat.ble n 13) || n == 0x20 || n == 0x85 || n == 0xA0 || n == 0x1680
    || (Nat.ble 0x2000 n && Nat.ble n 0x200A) || n == 0x2028 || n == 0x2029 || n == 0x202F
    || n == 0x205F || n == 0x3000

/-- Space, tab, line feed, form feed and carriage return; the vertical tab is not among them. -/
def isAsciiBlank (c : Char) : Bool :=
  c == ' ' || c == '\t' || c == '\n' || c == '\x0c' || c == '\r'

def trimStart (cs : List Char) : List Char :=
  cs.dropWhile isBlank

def dropEndWhile (p : Char → Bool) (cs : List Char) : List Char :=
  (cs.reverse.dropWhile p).reverse

def trim (cs : List Char) : List Char :=
  dropEndWhile isBlank (trimStart cs)

/-- Cuts at the first blank, which neither part keeps. -/
def cutAtBlank? : List Char → Option (List Char × List Char)
  | [] => none
  | c :: cs =>
    if isBlank c then some ([], cs)
    else (cutAtBlank? cs).map fun (w, rest) => (c :: w, rest)

/-- Cuts at the first `d`, which neither part keeps. -/
def cutAt? (d : Char) : List Char → Option (List Char × List Char)
  | [] => none
  | c :: cs =>
    if c == d then some ([], cs)
    else (cutAt? d cs).map fun (w, rest) => (c :: w, rest)

/-- The pieces between the occurrences of `d`; there is always at least one. -/
def splitOn (d : Char) : List Char → List (List Char)
  | [] => [[]]
  | c :: cs =>
    match splitOn d cs with
    | [] => [[c]]
    | w :: ws => if c == d then [] :: w :: ws else (c :: w) :: ws

end ComponentDoc.Text
