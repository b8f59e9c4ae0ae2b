import ComponentDoc.Text.Letter

/-!
Texts spelled by code points, as escapes give them. Two surrogates in a row may spell one character; a
surrogate on its own spells none.
-/
namespace ComponentDoc.Text

def isLeadSurrogate (n : Nat) : Bool :=
  Nat.ble 0xD800 n && Nat.blt n 0xDC00

def isTrailSurrogate (n : Nat) : Bool :=
  Nat.ble 0xDC00 n && Nat.blt n 0xE000

/-- Joins each lead surrogate with the trail surrogate right after it. -/
def joinSurrogates : List Nat → List Nat
  | [] => []
  | [n] => [n]
  | m :: n :: rest =>
    if isLeadSurrogate m && isTrailSurrogate n then
      (0x10000 + (m - 0xD800) * 0x400 + (n - 0xDC00)) :: joinSurrogates rest
    else m :: joinSurrogates (n :: rest)

def isSurrogate (n : Nat) : Bool :=
  isLeadSurrogate n || isTrailSurrogate n

/-- The value of a string literal. A literal may spell half of a surrogate pair, which no text can
hold: its value is then known only with a replacement character for each such half. -/
inductive StringValue where
  | text (value : String)
  | broken (repaired : String)
deriving DecidableEq, Repr, Inhabited

def StringValue.text? : StringValue → Option String
  | .text value => some value
  | .broken _ => none

def StringValue.repaired : StringValue → String
  | .text value => value
  | .broken repaired => repaired

/-- The value spelled by a sequence of code points, some of which may be surrogates. -/
def StringValue.ofCodes (codes : List Nat) : StringValue :=
  let joined := joinSurrogates codes
  let repaired := String.ofList (joined.map fun n => if isSurrogate n then '\uFFFD' else Char.ofNat n)
  if joined.any isSurrogate then .broken repaired else .text repaired

def hexValue? (c : Char) : Option Nat :=
  if isAsciiDigit c then some (c.toNat - 48)
  else if Nat.ble 97 c.toNat && Nat.ble c.toNat 102 then some (c.toNat - 87)
  else if Nat.ble 65 c.toNat && Nat.ble c.toNat 70 then some (c.toNat - 55)
  else none

def hexNumber? (cs : List Char) : Option Nat :=
  if cs.isEmpty then none
  else cs.foldl (fun acc c => do return (← acc) * 16 + (← hexValue? c)) (some 0)

end ComponentDoc.Text
