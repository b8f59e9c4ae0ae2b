import ComponentDoc.Comment.Source
import ComponentDoc.Script.Scan
import ComponentDoc.Text.Blank

/-!
A place in a script: the token there, the text from it on, and the comments passed on the way. Blanks
and comments belong to the token after them.
-/
namespace ComponentDoc.Script

open Text

structure Cursor where
  token : Token
  span : Span
  /-- The text from the token on. -/
  here : List Char
  /-- The text past the token. -/
  after : List Char
  /-- A line break separates the token from the one before it. -/
  afterBreak : Bool
  previous : Span
  /-- The comments before the token, the last one first. -/
  comments : List Comment.Source
  /-- Faults that do not stop the reading, the last one first. -/
  faults : List Fault
deriving Inhabited

/-- Blanks of a script that are not line breaks. -/
def isScriptBlank (c : Char) : Bool :=
  let n := c.toNat
  n == 9 || n == 11 || n == 12 || n == 32 || n == 0xA0 || n == 0xFEFF
    || (Nat.ble 0x1680 n && isBlank c && !isLineBreak c)

/-- Where the reading between two tokens stands: outside of comments, or in one that began at an
offset, with its text so far in reverse. -/
inductive TriviaMode where
  | outside
  | inLine (start : Nat) (text : List Char)
  | inBlock (start : Nat) (text : List Char)
  /-- A markup comment, which runs to the end of its line and is a fault. -/
  | inMarkup

structure Trivia where
  rest : List Char
  offset : Nat
  afterBreak : Bool
  comments : List Comment.Source
  faults : List Fault

/-- Passes over blanks and comments. `-->` is a markup comment at the start of a line only. -/
def skipTrivia : TriviaMode → List Char → Trivia → Trivia
  | .outside, [], t => { t with rest := [] }
  | .outside, '/' :: '/' :: cs, t => skipTrivia (.inLine t.offset []) cs { t with offset := t.offset + 2 }
  | .outside, '/' :: '*' :: cs, t => skipTrivia (.inBlock t.offset []) cs { t with offset := t.offset + 2 }
  | .outside, '<' :: '!' :: '-' :: '-' :: cs, t =>
    skipTrivia .inMarkup cs
      { t with offset := t.offset + 4, faults := ⟨.legacyComment, t.offset⟩ :: t.faults }
  | .outside, '-' :: '-' :: '>' :: cs, t =>
    if t.afterBreak then
      skipTrivia .inMarkup cs
        { t with offset := t.offset + 3, faults := ⟨.legacyComment, t.offset⟩ :: t.faults }
    else { t with rest := '-' :: '-' :: '>' :: cs }
  | .outside, c :: cs, t =>
    if isLineBreak c then
      skipTrivia .outside cs { t with offset := t.offset + c.utf8Size, afterBreak := true }
    else if isScriptBlank c then skipTrivia .outside cs { t with offset := t.offset + c.utf8Size }
    else { t with rest := c :: cs }
  | .inLine start text, [], t =>
    { t with rest := [], comments := ⟨.line, ⟨start, t.offset⟩, text.reverse⟩ :: t.comments }
  | .inLine start text, c :: cs, t =>
    if isLineBreak c then
      skipTrivia .outside cs
        { t with offset := t.offset + c.utf8Size, afterBreak := true,
                 comments := ⟨.line, ⟨start, t.offset⟩, text.reverse⟩ :: t.comments }
    else skipTrivia (.inLine start (c :: text)) cs { t with offset := t.offset + c.utf8Size }
  | .inBlock _ _, [], t =>
    { t with rest := [], faults := ⟨.unterminatedComment, t.offset⟩ :: t.faults }
  | .inBlock start text, '*' :: '/' :: cs, t =>
    skipTrivia .outside cs
      { t with offset := t.offset + 2,
               comments := ⟨.block, ⟨start, t.offset + 2⟩, text.reverse⟩ :: t.comments }
  | .inBlock start text, c :: cs, t =>
    skipTrivia (.inBlock start (c :: text)) cs
      { t with offset := t.offset + c.utf8Size, afterBreak := t.afterBreak || isLineBreak c }
  | .inMarkup, [], t => { t with rest := [] }
  | .inMarkup, c :: cs, t =>
    if isLineBreak c then
      skipTrivia .outside cs { t with offset := t.offset + c.utf8Size, afterBreak := true }
    else skipTrivia .inMarkup cs { t with offset := t.offset + c.utf8Size }

/-- A token with the text and the offset past it, and a fault that does not stop the reading. -/
structure Lexeme where
  token : Token
  rest : List Char
  stop : Nat
  fault : Option Fault := none

def wordToken (w : WordScan) (offset : Nat) : Token :=
  let name := String.ofList w.name
  if w.escaped && isReserved name then .invalid ⟨.escapedKeyword, offset⟩ else .word name w.escaped

def stringLexeme (quote : Char) (cs : List Char) (offset : Nat) : Lexeme :=
  match scanString? quote cs (offset + 1) [] none with
  | none => ⟨.invalid ⟨.unterminatedString, offset⟩, cs, offset + 1, none⟩
  | some s =>
    match s.fault with
    | some ⟨.badEscape, place⟩ => ⟨.invalid ⟨.badEscape, place⟩, s.rest, s.stop, none⟩
    | fault => ⟨.string (.ofCodes s.codes), s.rest, s.stop, fault⟩

def wordLexeme (cs : List Char) (offset : Nat) : Lexeme :=
  match scanWord? cs offset [] false with
  | some w => ⟨wordToken w offset, w.rest, w.stop, none⟩
  | none => ⟨.invalid ⟨.badEscape, offset⟩, cs.drop 1, offset + 1, none⟩

def numberLexeme (cs : List Char) (offset : Nat) : Lexeme :=
  let n := scanNumber cs offset
  ⟨if n.isBigint then .bigint else .number, n.rest, n.stop, n.cause.map (⟨·, offset⟩)⟩

/-- `?.` before a digit is a conditional operator and a number. -/
def punctLexeme (cs : List Char) (offset : Nat) : Lexeme :=
  match punctuators.find? (·.isPrefixOf cs) with
  | none => ⟨.invalid ⟨.unexpectedCharacter, offset⟩, cs.drop 1, offset + byteLength (cs.take 1), none⟩
  | some p =>
    let p := if p == ['?', '.'] && ((cs.drop 2).head?.any isAsciiDigit) then ['?'] else p
    ⟨.punct (String.ofList p), cs.drop p.length, offset + p.length, none⟩

/-- The token at the front of a text. A slash is always an operator and a backquote stands alone: what
they open is read on request. -/
def lexeme (cs : List Char) (offset : Nat) : Lexeme :=
  match cs with
  | [] => ⟨.eof, [], offset, none⟩
  | '"' :: rest => stringLexeme '"' rest offset
  | '\'' :: rest => stringLexeme '\'' rest offset
  | '#' :: c :: rest =>
    if isIdentStart c || c == '\\' then
      match scanWord? (c :: rest) (offset + 1) [] false with
      | some w => ⟨.privateName (String.ofList w.name), w.rest, w.stop, none⟩
      | none => ⟨.invalid ⟨.badEscape, offset⟩, rest, offset + 1, none⟩
    else ⟨.punct "#", c :: rest, offset + 1, none⟩
  | '.' :: c :: rest =>
    if isAsciiDigit c then numberLexeme cs offset else punctLexeme ('.' :: c :: rest) offset
  | c :: _ =>
    if isIdentStart c || c == '\\' then wordLexeme cs offset
    else if isAsciiDigit c then numberLexeme cs offset
    else punctLexeme cs offset

/-- The cursor at the first token of a text that starts at an offset. -/
def Cursor.read (cs : List Char) (offset : Nat) (afterBreak : Bool) (previous : Span)
    (comments : List Comment.Source) (faults : List Fault) : Cursor :=
  let t := skipTrivia .outside cs ⟨cs, offset, afterBreak, comments, faults⟩
  let l := lexeme t.rest t.offset
  { token := l.token, span := ⟨t.offset, l.stop⟩, here := t.rest, after := l.rest,
    afterBreak := t.afterBreak, previous := previous, comments := t.comments,
    faults := l.fault.toList ++ t.faults }

/-- The cursor at the start of a script. A first line that starts with `#!` is passed over. -/
def Cursor.start (cs : List Char) : Cursor :=
  match cs with
  | '#' :: '!' :: rest =>
    let line := rest.takeWhile (!isLineBreak ·)
    .read (rest.drop line.length) (2 + byteLength line) true ⟨0, 0⟩ [] []
  | cs => .read cs 0 true ⟨0, 0⟩ [] []

def Cursor.next (c : Cursor) : Cursor :=
  .read c.after c.span.stop false c.span c.comments c.faults

/-- Past the first character of a punctuator, whose other characters make a token of their own. -/
def Cursor.nextAfterFirst (c : Cursor) : Cursor :=
  .read (c.here.drop 1) (c.span.start + 1) false ⟨c.span.start, c.span.start + 1⟩ c.comments c.faults

/-- Past a lexeme that was read on request and ends at an offset. -/
def Cursor.resume (c : Cursor) (rest : List Char) (stop : Nat) : Cursor :=
  .read rest stop false ⟨c.span.start, stop⟩ c.comments c.faults

end ComponentDoc.Script
