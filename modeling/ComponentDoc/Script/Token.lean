import ComponentDoc.Script.Fault
import ComponentDoc.Script.Tree
import ComponentDoc.Text.Letter

/-!
Tokens of a script and the words that are reserved in it. A script is always module code, where the
strict set of reserved words holds.
-/
namespace ComponentDoc.Script

inductive Token where
  /-- A name or keyword, and whether its spelling holds an escape. -/
  | word (name : String) (escaped : Bool)
  | privateName (name : String)
  | punct (text : String)
  | string (value : Text.StringValue)
  | number
  | bigint
  | eof
  | invalid (fault : Fault)
deriving DecidableEq, Repr, Inhabited

/-- Words that never name anything. -/
def keywords : List String :=
  ["await", "break", "case", "catch", "class", "const", "continue", "debugger", "default", "delete",
   "do", "else", "export", "extends", "finally", "for", "function", "if", "import", "in",
   "instanceof", "let", "new", "return", "super", "switch", "this", "throw", "try", "typeof", "var",
   "void", "while", "with", "yield", "null", "true", "false"]

/-- Words kept for later use. -/
def futureWords : List String :=
  ["implements", "interface", "package", "private", "protected", "public"]

/-- Words that strict code refuses as an identifier, beyond the keywords. -/
def strictWords : List String :=
  "enum" :: "static" :: futureWords

def isKeyword (name : String) : Bool :=
  keywords.contains name

/-- Words that cannot stand for a variable of the same name, as in `{ name }`. -/
def isReserved (name : String) : Bool :=
  isKeyword name || name == "enum" || futureWords.contains name

/-- Names that strict code neither binds nor assigns. -/
def isRestricted (name : String) : Bool :=
  name == "eval" || name == "arguments"

/-- The punctuators, longer ones before their own beginnings. -/
def punctuators : List (List Char) :=
  [">>>=", "...", "===", "!==", "**=", "<<=", ">>=", ">>>", "&&=", "||=", "??=", "=>", "==", "!=",
   "<=", ">=", "&&", "||", "??", "?.", "++", "--", "+=", "-=", "*=", "/=", "%=", "&=", "|=", "^=",
   "<<", ">>", "**", "\x7b", "\x7d", "(", ")", "[", "]", ";", ",", "<", ">", "+", "-", "*", "/", "%",
   "&", "|", "^", "!", "~", "?", ":", "=", ".", "@", "#", "`"].map String.toList

def assignOperators : List String :=
  ["=", "+=", "-=", "*=", "/=", "%=", "**=", "<<=", ">>=", ">>>=", "&=", "|=", "^=", "&&=", "||=",
   "??="]

/-- How tightly a binary operator binds. -/
def precedence? : String → Option Nat
  | "??" | "||" => some 1
  | "&&" => some 2
  | "|" => some 3
  | "^" => some 4
  | "&" => some 5
  | "==" | "!=" | "===" | "!==" => some 6
  | "<" | "<=" | ">" | ">=" | "in" | "instanceof" => some 7
  | "<<" | ">>" | ">>>" => some 8
  | "+" | "-" => some 9
  | "*" | "/" | "%" => some 10
  | "**" => some 11
  | _ => none

/-- The operator that a token stands for between two operands. -/
def Token.binaryOp? : Token → Option String
  | .punct text => if (precedence? text).isSome then some text else none
  | .word name false => if name == "in" || name == "instanceof" then some name else none
  | _ => none

/-- Whether an expression may begin with the token. -/
def Token.startsExpr : Token → Bool
  | .word name escaped =>
    escaped || !isKeyword name
      || ["await", "class", "delete", "function", "import", "let", "new", "super", "this", "typeof",
          "void", "yield", "null", "true", "false"].contains name
  | .punct text =>
    ["!", "~", "+", "-", "++", "--", "(", "[", "\x7b", "`", "/", "/=", "<", "#", "@"].contains text
  | .string _ | .number | .bigint | .privateName _ => true
  | .eof | .invalid _ => false

end ComponentDoc.Script
