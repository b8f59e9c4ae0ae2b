import ComponentDoc.Script.Token

/-!
Scanners for the lexemes of a script: names, numbers, strings, templates and regular expressions. Each
reads from the front of a text and gives back what it read, the text after it, and the byte offset where
that text starts.
-/
namespace ComponentDoc.Script

open Text

def isOctalDigit (c : Char) : Bool :=
  Nat.ble 48 c.toNat && Nat.ble c.toNat 55

def isLineBreak (c : Char) : Bool :=
  c == '\n' || c == '\r' || c.toNat == 0x2028 || c.toNat == 0x2029

inductive Escaped where
  | code (n : Nat)
  /-- A line continuation spells nothing. -/
  | nothing
  | octal (n : Nat)
  | malformed
deriving DecidableEq, Repr, Inhabited

/-- What an escape spells, and how many characters after the backslash it takes. -/
structure Escape where
  spelled : Escaped
  width : Nat

/-- The part of a code point escape after `\u`: four digits, or braces around any number of them. -/
def readCodePoint? : List Char → Option (Nat × Nat)
  | '\x7b' :: cs => do
    let digits := cs.takeWhile (· != '\x7d')
    let n ← hexNumber? digits
    if Nat.ble n 0x10FFFF && Nat.blt digits.length cs.length then some (n, digits.length + 2) else none
  | a :: b :: c :: d :: _ => do
    let n ← hexNumber? [a, b, c, d]
    return (n, 4)
  | _ => none

def readEscape : List Char → Escape
  | [] => ⟨.malformed, 0⟩
  | 'n' :: _ => ⟨.code 10, 1⟩
  | 'r' :: _ => ⟨.code 13, 1⟩
  | 't' :: _ => ⟨.code 9, 1⟩
  | 'b' :: _ => ⟨.code 8, 1⟩
  | 'v' :: _ => ⟨.code 11, 1⟩
  | 'f' :: _ => ⟨.code 12, 1⟩
  | '\r' :: '\n' :: _ => ⟨.nothing, 2⟩
  | 'x' :: a :: b :: _ =>
    match hexNumber? [a, b] with
    | some n => ⟨.code n, 3⟩
    | none => ⟨.malformed, 1⟩
  | 'u' :: cs =>
    match readCodePoint? cs with
    | some (n, width) => ⟨.code n, width + 1⟩
    | none => ⟨.malformed, 1⟩
  | 'x' :: _ => ⟨.malformed, 1⟩
  | c :: cs =>
    if isLineBreak c then ⟨.nothing, 1⟩
    else if isOctalDigit c then
      let following := (cs.take (if Nat.ble c.toNat 51 then 2 else 1)).takeWhile isOctalDigit
      if c == '0' && following.isEmpty then ⟨.code 0, 1⟩
      else
        ⟨.octal ((c :: following).foldl (fun n d => n * 8 + (d.toNat - 48)) 0), following.length + 1⟩
    else ⟨.code c.toNat, 1⟩

/-- A scanned string: its code points, the first fault in it, and what comes after. -/
structure StringScan where
  codes : List Nat
  fault : Option Fault
  rest : List Char
  stop : Nat

/-- Reads up to the closing quote; `none` if the line or the text ends first. The code points read so
far are kept in reverse. -/
def scanString? (quote : Char) (cs : List Char) (offset : Nat) (codes : List Nat)
    (fault : Option Fault) : Option StringScan :=
  match cs with
  | [] => none
  | '\\' :: cs =>
    let escape := readEscape cs
    let next := offset + 1 + byteLength (cs.take escape.width)
    match escape.spelled with
    | .code n => scanString? quote (cs.drop escape.width) next (n :: codes) fault
    | .nothing => scanString? quote (cs.drop escape.width) next codes fault
    | .octal n =>
      scanString? quote (cs.drop escape.width) next (n :: codes)
        (fault.or (some ⟨.legacyOctal, offset⟩))
    | .malformed =>
      scanString? quote (cs.drop escape.width) next codes (fault.or (some ⟨.badEscape, offset⟩))
  | c :: cs =>
    if c == quote then some ⟨codes.reverse, fault, cs, offset + 1⟩
    else if c == '\n' || c == '\r' then none
    else scanString? quote cs (offset + c.utf8Size) (c.toNat :: codes) fault
termination_by cs.length
decreasing_by all_goals (simp only [List.length_drop, List.length_cons]; omega)

/-- A stretch of a template: its code points, whether an escape in it is malformed, whether the
template ends here, and what comes after. -/
structure TemplateScan where
  codes : List Nat
  malformed : Bool
  isLast : Bool
  rest : List Char
  stop : Nat

/-- Reads up to a substitution or the closing quote; every line break spells a line feed. -/
def scanTemplate? (cs : List Char) (offset : Nat) (codes : List Nat) (malformed : Bool) :
    Option TemplateScan :=
  match cs with
  | [] => none
  | '\x60' :: cs => some ⟨codes.reverse, malformed, true, cs, offset + 1⟩
  | '$' :: '\x7b' :: cs => some ⟨codes.reverse, malformed, false, cs, offset + 2⟩
  | '\\' :: cs =>
    let escape := readEscape cs
    let next := offset + 1 + byteLength (cs.take escape.width)
    match escape.spelled with
    | .code n => scanTemplate? (cs.drop escape.width) next (n :: codes) malformed
    | .nothing => scanTemplate? (cs.drop escape.width) next codes malformed
    | .octal _ | .malformed => scanTemplate? (cs.drop escape.width) next codes true
  | '\r' :: '\n' :: cs => scanTemplate? cs (offset + 2) (10 :: codes) malformed
  | '\r' :: cs => scanTemplate? cs (offset + 1) (10 :: codes) malformed
  | c :: cs => scanTemplate? cs (offset + c.utf8Size) (c.toNat :: codes) malformed
termination_by cs.length
decreasing_by all_goals (simp only [List.length_drop, List.length_cons]; omega)

structure WordScan where
  name : List Char
  escaped : Bool
  rest : List Char
  stop : Nat

/-- The longest name at the front; `none` if an escape in it is malformed or spells no name character. -/
def scanWord? (cs : List Char) (offset : Nat) (name : List Char) (escaped : Bool) : Option WordScan :=
  match cs with
  | '\\' :: 'u' :: cs =>
    match readCodePoint? cs with
    | none => none
    | some (n, width) =>
      let c := Char.ofNat n
      if !isSurrogate n && (if name.isEmpty then isIdentStart c else isIdentPart c) then
        scanWord? (cs.drop width) (offset + 2 + width) (c :: name) true
      else none
  | '\\' :: _ => none
  | c :: cs =>
    if isIdentPart c then scanWord? cs (offset + c.utf8Size) (c :: name) escaped
    else some ⟨name.reverse, escaped, c :: cs, offset⟩
  | [] => some ⟨name.reverse, escaped, [], offset⟩
termination_by cs.length
decreasing_by all_goals (simp only [List.length_drop, List.length_cons]; omega)

structure NumberScan where
  isBigint : Bool
  cause : Option Cause
  rest : List Char
  stop : Nat

/-- A separator stands between two digits. -/
def separatorsFit : List Char → Bool
  | [] => true
  | '_' :: _ => false
  | [_, '_'] => false
  | _ :: '_' :: '_' :: _ => false
  | _ :: '_' :: cs => separatorsFit cs
  | _ :: cs => separatorsFit cs

/-- Digits with separators, and what comes after them. -/
def scanDigits (isDigit : Char → Bool) (cs : List Char) : List Char × List Char :=
  cs.span fun c => isDigit c || c == '_'

def isHexDigit (c : Char) : Bool :=
  (hexValue? c).isSome

/-- A number does not run into a name. -/
def numberEnds : List Char → Bool
  | [] => true
  | c :: _ => !isIdentStart c && c != '\\'

def finishNumber (isBigint fits : Bool) (rest : List Char) (stop : Nat) : NumberScan :=
  ⟨isBigint, if fits && numberEnds rest then none else some .badNumber, rest, stop⟩

/-- A number after its radix mark. -/
def scanRadix (isDigit : Char → Bool) (cs : List Char) (offset : Nat) : NumberScan :=
  let (digits, rest) := scanDigits isDigit cs
  let fits := !digits.isEmpty && separatorsFit digits
  let stop := offset + digits.length
  match rest with
  | 'n' :: rest => finishNumber true fits rest (stop + 1)
  | rest => finishNumber false fits rest stop

/-- The exponent of a decimal number, if there is one. -/
def scanExponent (fits : Bool) (cs : List Char) (offset : Nat) : NumberScan :=
  match cs with
  | c :: cs =>
    if c == 'e' || c == 'E' then
      let (sign, cs) := match cs with
        | '+' :: cs => (1, cs)
        | '-' :: cs => (1, cs)
        | cs => (0, cs)
      let (digits, rest) := scanDigits isAsciiDigit cs
      finishNumber false (fits && !digits.isEmpty && separatorsFit digits) rest
        (offset + 1 + sign + digits.length)
    else finishNumber false fits (c :: cs) offset
  | [] => finishNumber false fits [] offset

/-- A decimal number; one that starts with a zero and goes on with a digit is a legacy spelling. -/
def scanDecimal (cs : List Char) (offset : Nat) : NumberScan :=
  let (whole, rest) := scanDigits isAsciiDigit cs
  let fits := separatorsFit whole
  let stop := offset + whole.length
  let scan := match rest with
    | 'n' :: rest => if whole.isEmpty then ⟨false, some .badNumber, rest, stop + 1⟩
      else finishNumber true fits rest (stop + 1)
    | '.' :: rest =>
      let (fraction, rest) := scanDigits isAsciiDigit rest
      scanExponent (fits && separatorsFit fraction) rest (stop + 1 + fraction.length)
    | rest => scanExponent fits rest stop
  match whole with
  | '0' :: _ :: _ => { scan with cause := some .legacyOctal }
  | _ => scan

def scanNumber (cs : List Char) (offset : Nat) : NumberScan :=
  match cs with
  | '0' :: 'x' :: cs | '0' :: 'X' :: cs => scanRadix isHexDigit cs (offset + 2)
  | '0' :: 'o' :: cs | '0' :: 'O' :: cs => scanRadix isOctalDigit cs (offset + 2)
  | '0' :: 'b' :: cs | '0' :: 'B' :: cs => scanRadix (fun c => c == '0' || c == '1') cs (offset + 2)
  | cs => scanDecimal cs offset

/-- Reads the body of a regular expression after its opening slash; a slash in brackets is part of it. -/
def scanRegexBody? (inBrackets : Bool) : List Char → Nat → Option (List Char × Nat)
  | [], _ => none
  | '\\' :: c :: cs, offset =>
    if isLineBreak c then none else scanRegexBody? inBrackets cs (offset + 1 + c.utf8Size)
  | c :: cs, offset =>
    if isLineBreak c then none
    else if c == '/' && !inBrackets then some (cs, offset + 1)
    else scanRegexBody? (c == '[' || (inBrackets && c != ']')) cs (offset + c.utf8Size)

/-- Each flag is one of eight letters and is given once. -/
def regexFlagsFit (flags : List Char) : Bool :=
  flags.all ("dgimsuvy".toList.contains ·) && flags.eraseDups.length == flags.length

end ComponentDoc.Script
