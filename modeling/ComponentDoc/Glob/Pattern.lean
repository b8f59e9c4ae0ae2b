import ComponentDoc.Text.Search

/-!
Glob patterns. A star stands for any characters, slashes included, and a question mark for any one; two
stars in place of a whole path component stand for any number of components; brackets hold a set of
characters.
-/
namespace ComponentDoc.Glob

open Text

/-- One entry of a set of characters. -/
inductive CharClass where
  | single (c : Char)
  | range (first last : Char)
deriving DecidableEq, Repr, Inhabited

inductive Token where
  | char (c : Char)
  | anyChar
  | anySequence
  /-- Any number of whole path components. -/
  | anyPath
  | within (classes : List CharClass)
  | without (classes : List CharClass)
deriving DecidableEq, Repr, Inhabited

abbrev Pattern :=
  List Token

inductive Cause where
  | tooManyStars
  | partOfComponent
  | openBracket
deriving DecidableEq, Repr, Inhabited

def Cause.message : Cause → String
  | .tooManyStars => "wildcards are either regular `*` or recursive `**`"
  | .partOfComponent => "recursive wildcards must form a single path component"
  | .openBracket => "invalid range pattern"

/-- Why a text is no pattern, and the number of the character near which that shows. -/
structure Fault where
  position : Nat
  cause : Cause
deriving DecidableEq, Repr, Inhabited

def Fault.message (fault : Fault) : String :=
  "Pattern syntax error near position " ++ toString fault.position ++ ": " ++ fault.cause.message

/-- The entries of a set. A hyphen between two characters makes a range of them. -/
def charClasses : List Char → List CharClass
  | first :: '-' :: last :: rest => .range first last :: charClasses rest
  | c :: rest => .single c :: charClasses rest
  | [] => []

/-- A set after its opening bracket, and how many characters it takes up to the closing one. The first
character belongs to the set, even a closing bracket. -/
def charSet? : List Char → Option (Token × Nat)
  | '!' :: c :: rest => (cutAt? ']' rest).map fun (inside, _) =>
    (.without (charClasses (c :: inside)), inside.length + 3)
  | '!' :: _ => none
  | c :: rest => (cutAt? ']' rest).map fun (inside, _) =>
    (.within (charClasses (c :: inside)), inside.length + 2)
  | [] => none

/-- Two stars that stand after `previous` and before `rest`, and how many characters after the first
star they take, a slash included. -/
def anyPath (position : Nat) (previous : Option Char) (rest : List Char) :
    Except Fault (Token × Nat) :=
  if previous.all (· == '/') then
    match rest with
    | [] => .ok (.anyPath, 1)
    | '/' :: _ => .ok (.anyPath, 2)
    | _ => .error ⟨position + 2, .partOfComponent⟩
  else .error ⟨position - 1, .partOfComponent⟩

/-- The token at the front of a text, given its first character and the others, and how many of the
others it takes. -/
def token (position : Nat) (previous : Option Char) (c : Char) (rest : List Char) :
    Except Fault (Token × Nat) :=
  match c with
  | '?' => .ok (.anyChar, 0)
  | '*' =>
    match (rest.takeWhile (· == '*')).length with
    | 0 => .ok (.anySequence, 0)
    | 1 => anyPath position previous (rest.drop 1)
    | _ => .error ⟨position + 2, .tooManyStars⟩
  | '[' =>
    match charSet? rest with
    | some taken => .ok taken
    | none => .error ⟨position, .openBracket⟩
  | c => .ok (.char c, 0)

/-- The tokens of a text from a position on; the first `taken` characters belong to the token before. -/
def tokensFrom (taken position : Nat) (previous : Option Char) : List Char → Except Fault Pattern
  | [] => .ok []
  | c :: rest =>
    match taken with
    | taken + 1 => tokensFrom taken (position + 1) (some c) rest
    | 0 => do
      let (token, taken) ← token position previous c rest
      let tokens ← tokensFrom taken (position + 1) (some c) rest
      return token :: tokens

/-- The pattern that a text spells. -/
def Pattern.parse (text : List Char) : Except Fault Pattern :=
  tokensFrom 0 0 none text

def CharClass.has (c : Char) : CharClass → Bool
  | .single d => c == d
  | .range first last => Nat.ble first.toNat c.toNat && Nat.ble c.toNat last.toNat

/-- Whether a token that stands for one character accepts it. -/
def Token.accepts (c : Char) : Token → Bool
  | .char d => c == d
  | .anyChar => true
  | .within classes => classes.any (CharClass.has c)
  | .without classes => !classes.any (CharClass.has c)
  | .anySequence => false
  | .anyPath => false

/-- Whether a property holds of the text after some slash. -/
def anyAfterSlash (p : List Char → Bool) : List Char → Bool
  | [] => false
  | c :: cs => (c == '/' && p cs) || anyAfterSlash p cs

/-- Whether a pattern describes the whole of a text. -/
def Pattern.fits : Pattern → List Char → Bool
  | [], cs => cs.isEmpty
  | .anySequence :: tokens, cs => anySuffix (fits tokens) cs
  | .anyPath :: tokens, cs => fits tokens cs || anyAfterSlash (fits tokens) cs || fits tokens []
  | _ :: _, [] => false
  | token :: tokens, c :: cs => token.accepts c && fits tokens cs

/-- A pattern of whole path components alone. -/
def Pattern.isAnyPath (pattern : Pattern) : Bool :=
  pattern == [.anyPath]

/-- The text that a pattern without wildcards and sets spells. -/
def Pattern.literal? : Pattern → Option (List Char)
  | [] => some []
  | .char c :: tokens => (literal? tokens).map (c :: ·)
  | _ :: _ => none

/-- Whether a text asks to be read as a pattern: sets alone do not. -/
def hasWildcard (text : List Char) : Bool :=
  text.any fun c => c == '*' || c == '?'

end ComponentDoc.Glob
