import ComponentDoc.Json.Basic

/-!
Reading JSON text. The grammar is the strict one: no comma before a closing bracket, no control
characters in strings, nothing but blanks after the value.
-/
namespace ComponentDoc.Json

open Text

def isJsonBlank (c : Char) : Bool :=
  c == ' ' || c == '\n' || c == '\r' || c == '\t'

/-- The character that a backslash and a letter stand for. -/
def escapeCode? (c : Char) : Option Nat :=
  match c with
  | '"' => some 0x22
  | '\\' => some 0x5C
  | '/' => some 0x2F
  | 'b' => some 0x08
  | 'f' => some 0x0C
  | 'n' => some 0x0A
  | 'r' => some 0x0D
  | 't' => some 0x09
  | _ => none

/-- The code points of a string after its opening quote, and the text after its closing quote. -/
def stringCodes? : List Char → Option (List Nat × List Char)
  | [] => none
  | '"' :: rest => some ([], rest)
  | '\\' :: 'u' :: a :: b :: c :: d :: rest => do
    let code ← hexNumber? [a, b, c, d]
    let (codes, rest) ← stringCodes? rest
    return (code :: codes, rest)
  | '\\' :: c :: rest => do
    let code ← escapeCode? c
    let (codes, rest) ← stringCodes? rest
    return (code :: codes, rest)
  | c :: rest =>
    if Nat.blt c.toNat 0x20 || c == '\\' then none
    else do
      let (codes, rest) ← stringCodes? rest
      return (c.toNat :: codes, rest)

def string? (cs : List Char) : Option (StringValue × List Char) :=
  (stringCodes? cs).map fun (codes, rest) => (.ofCodes codes, rest)

/-- Takes characters from the front as long as they are digits. -/
def digits (cs : List Char) : List Char × List Char :=
  (cs.takeWhile isAsciiDigit, cs.dropWhile isAsciiDigit)

/-- One digit or more. -/
def someDigits? (cs : List Char) : Option (List Char × List Char) :=
  match digits cs with
  | ([], _) => none
  | taken => some taken

def whole? : List Char → Option (List Char × List Char)
  | '0' :: rest => some (['0'], rest)
  | cs => someDigits? cs

def fraction? : List Char → Option (List Char × List Char)
  | '.' :: rest => (someDigits? rest).map fun (ds, rest) => ('.' :: ds, rest)
  | cs => some ([], cs)

def exponentSign : List Char → List Char × List Char
  | '+' :: rest => (['+'], rest)
  | '-' :: rest => (['-'], rest)
  | cs => ([], cs)

def exponent? : List Char → Option (List Char × List Char)
  | [] => some ([], [])
  | e :: rest =>
    if e == 'e' || e == 'E' then
      let (sign, rest) := exponentSign rest
      (someDigits? rest).map fun (ds, rest) => (e :: sign ++ ds, rest)
    else some ([], e :: rest)

def minus : List Char → List Char × List Char
  | '-' :: rest => (['-'], rest)
  | cs => ([], cs)

/-- A number at the front of a text, and the text after it. -/
def number? (cs : List Char) : Option (List Char × List Char) := do
  let (sign, cs) := minus cs
  let (units, cs) ← whole? cs
  let (fraction, cs) ← fraction? cs
  let (exponent, cs) ← exponent? cs
  return (sign ++ units ++ fraction ++ exponent, cs)

/-- The text after a word that stands at the front. -/
def afterWord? (word : String) (cs : List Char) : Option (List Char) :=
  if word.toList.isPrefixOf cs then some (cs.drop word.toList.length) else none

/-- A value that is neither a string, an array nor an object. -/
def scalar? (cs : List Char) : Option (Json × List Char) :=
  match cs with
  | 'n' :: _ => (afterWord? "null" cs).map (.null, ·)
  | 't' :: _ => (afterWord? "true" cs).map (.bool true, ·)
  | 'f' :: _ => (afterWord? "false" cs).map (.bool false, ·)
  | _ => (number? cs).map fun (spelling, rest) => (.number spelling, rest)

mutual

/-- A value at the front of a text, and the text after it; `depth` bounds the nesting. -/
def value? : Nat → List Char → Option (Json × List Char)
  | 0, _ => none
  | depth + 1, cs =>
    match cs.dropWhile isJsonBlank with
    | '"' :: rest => (string? rest).map fun (value, rest) => (.string value, rest)
    | '[' :: rest =>
      match rest.dropWhile isJsonBlank with
      | ']' :: rest => some (.array [], rest)
      | rest => (items? depth rest).map fun (items, rest) => (.array items, rest)
    | '\x7b' :: rest =>
      match rest.dropWhile isJsonBlank with
      | '\x7d' :: rest => some (.object [], rest)
      | rest => (members? depth rest).map fun (members, rest) => (.object members, rest)
    | cs => scalar? cs

/-- The items of an array up to its closing bracket. -/
def items? : Nat → List Char → Option (List Json × List Char)
  | 0, _ => none
  | depth + 1, cs => do
    let (item, rest) ← value? depth cs
    match rest.dropWhile isJsonBlank with
    | ',' :: rest =>
      let (items, rest) ← items? depth rest
      return (item :: items, rest)
    | ']' :: rest => return ([item], rest)
    | _ => none

/-- The members of an object up to its closing brace. -/
def members? : Nat → List Char → Option (List (StringValue × Json) × List Char)
  | 0, _ => none
  | depth + 1, cs =>
    match cs.dropWhile isJsonBlank with
    | '"' :: rest => do
      let (key, rest) ← string? rest
      match rest.dropWhile isJsonBlank with
      | ':' :: rest =>
        let (value, rest) ← value? depth rest
        match rest.dropWhile isJsonBlank with
        | ',' :: rest =>
          let (members, rest) ← members? depth rest
          return ((key, value) :: members, rest)
        | '\x7d' :: rest => return ([(key, value)], rest)
        | _ => none
      | _ => none
    | _ => none

end

/-- The value that a text spells; each level of nesting takes a character at least. -/
def read? (cs : List Char) : Option Json :=
  match value? (2 * cs.length + 2) cs with
  | some (value, rest) => if rest.all isJsonBlank then some value else none
  | none => none

end ComponentDoc.Json
