import ComponentDoc.Script.Cursor

/-!
Parsers over a cursor. A parser reads in a context, which holds what the surrounding code allows, and
either gives a value or stops at a fault. Faults that do not stop the reading are kept with the cursor,
unless the reading is a trial.
-/
namespace ComponentDoc.Script

open Text

structure Context where
  typescript : Bool
  /-- `in` is an operator here. -/
  allowIn : Bool := true
  inFunction : Bool := false
  inGenerator : Bool := false
  inAsync : Bool := false
  inParameters : Bool := false
  breakAllowed : Bool := false
  continueAllowed : Bool := false
  /-- Inside a branch of a conditional expression. -/
  inConditional : Bool := false
  /-- Inside the first branch of a conditional expression, which a colon must follow. -/
  expectsColon : Bool := false
  /-- Inside a declaration without code. -/
  ambient : Bool := false
  inClassField : Bool := false
  inStaticBlock : Bool := false
  superAllowed : Bool := false
  newTargetAllowed : Bool := false
  /-- In the head of a `for await` loop. -/
  inAwaitHead : Bool := false
  /-- A type may be conditional here. -/
  allowConditionalType : Bool := true
  /-- A trial keeps no faults. -/
  isTrial : Bool := false

structure State where
  cursor : Cursor
  labels : List String
  /-- Where an arrow function may start. -/
  arrowStart : Option Nat
  /-- Commas before the closing bracket, by the start of the literal that they end. -/
  trailingCommas : List (Nat × Nat)
deriving Inhabited

abbrev Parser := ReaderT Context (EStateM Fault State)

namespace Parser

def cursor : Parser Cursor :=
  return (← get).cursor

def token : Parser Token :=
  return (← get).cursor.token

/-- The start of the current token. -/
def offset : Parser Nat :=
  return (← get).cursor.span.start

/-- The end of the token before. -/
def lastStop : Parser Nat :=
  return (← get).cursor.previous.stop

def lastStart : Parser Nat :=
  return (← get).cursor.previous.start

/-- A line break comes before the current token. -/
def afterBreak : Parser Bool :=
  return (← get).cursor.afterBreak

def isTypeScript : Parser Bool :=
  return (← read).typescript

def within {α : Type} (f : Context → Context) (p : Parser α) : Parser α :=
  withReader f p

/-- Notes a fault and goes on. -/
def note (cause : Cause) (offset : Nat) : Parser Unit := do
  if (← read).isTrial then return
  modify fun s => { s with cursor := { s.cursor with faults := ⟨cause, offset⟩ :: s.cursor.faults } }

def noteIf (condition : Bool) (cause : Cause) (offset : Nat) : Parser Unit :=
  if condition then note cause offset else pure ()

/-- Stops. An invalid token is itself the reason. -/
def fail {α : Type} (cause : Cause) (offset : Nat) : Parser α := do
  match (← get).cursor.token with
  | .invalid fault => throw fault
  | _ => throw ⟨cause, offset⟩

/-- Stops at the current token. -/
def unexpected {α : Type} : Parser α := do
  fail .unexpectedToken (← offset)

def moveTo (next : Cursor → Cursor) : Parser Unit := do
  let isTrial := (← read).isTrial
  modify fun s =>
    let c := next s.cursor
    { s with cursor := if isTrial then { c with faults := s.cursor.faults } else c }

def advance : Parser Unit :=
  moveTo Cursor.next

/-- The cursor after the current token. -/
def peek : Parser Cursor :=
  return (← get).cursor.next

def isPunct (text : String) : Parser Bool :=
  return (← token) == .punct text

def isWord (name : String) : Parser Bool :=
  return (← token) == .word name false

def isOneOf (texts : List String) : Parser Bool := do
  match (← token) with
  | .punct text => return texts.contains text
  | _ => return false

def isOneOfWords (names : List String) : Parser Bool := do
  match (← token) with
  | .word name false => return names.contains name
  | _ => return false

/-- Any word, reserved or not. -/
def isAnyWord : Parser Bool := do
  match (← token) with
  | .word _ _ => return true
  | _ => return false

/-- A word that may name a variable. -/
def isName : Parser Bool := do
  match (← token) with
  | .word name _ => return !isReserved name
  | _ => return false

def isEof : Parser Bool :=
  return (← token) == .eof

def eat (text : String) : Parser Bool := do
  if ← isPunct text then
    advance
    return true
  else return false

def eatWord (name : String) : Parser Bool := do
  if ← isWord name then
    advance
    return true
  else return false

def expect (text : String) : Parser Unit := do
  unless ← eat text do unexpected

def expectWord (name : String) : Parser Unit := do
  unless ← eatWord name do unexpected

/-- The current token is a punctuator that starts with `<` or `>`, whichever `first` is. -/
def startsWith (first : Char) : Parser Bool := do
  match (← get).cursor.token, (← get).cursor.here with
  | .punct _, c :: _ => return c == first
  | _, _ => return false

/-- Takes one character off a punctuator. -/
def expectFirst (first : Char) : Parser Unit := do
  if ← startsWith first then moveTo Cursor.nextAfterFirst else unexpected

/-- A statement may end here: at a semicolon, before a closing brace, at a line break or at the end. -/
def isSemicolon : Parser Bool := do
  match (← token) with
  | .punct ";" | .punct "\x7d" | .eof => return true
  | _ => afterBreak

def eatSemicolon : Parser Bool := do
  if ← eat ";" then return true else isSemicolon

def expectSemicolon : Parser Unit := do
  unless ← eatSemicolon do fail .semicolonExpected (← offset)

/-- Tries a parser; if it stops, nothing has been read. -/
def trial? {α : Type} (p : Parser α) : Parser (Option α) := fun context state =>
  match p { context with isTrial := true } state with
  | .ok value state => .ok (some value) state
  | .error _ _ => .ok none state

/-- Whether a parser would answer yes; nothing is read. -/
def lookAhead (p : Parser Bool) : Parser Bool := fun context state =>
  match p { context with isTrial := true } state with
  | .ok value _ => .ok value state
  | .error _ _ => .ok false state

/-- A parser that, if it stops, notes the fault and gives `default` from there. -/
def recovering {α : Type} (p : Parser α) (default : α) : Parser α := fun context state =>
  match p context state with
  | .ok value state => .ok value state
  | .error fault state => (do note fault.cause fault.offset; return default : Parser α) context state

/-- The token after the current one, without a line break between them, is this word. -/
def nextIsWordOnLine (name : String) : Parser Bool := do
  let next ← peek
  return next.token == .word name false && !next.afterBreak

end Parser

end ComponentDoc.Script
