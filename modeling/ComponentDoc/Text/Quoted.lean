/-!
Quoted text: the string literals of the JSON format. A quote, a backslash and the control characters
are escaped, everything else stands for itself.
-/
namespace ComponentDoc.Text

def hexDigit (n : Nat) : Char :=
  if Nat.blt n 10 then Char.ofNat (48 + n) else Char.ofNat (87 + n)

/-- A control character without a short escape takes four hexadecimal digits. -/
def escapeChar (c : Char) : List Char :=
  match c with
  | '"' => ['\\', '"']
  | '\\' => ['\\', '\\']
  | '\n' => ['\\', 'n']
  | '\r' => ['\\', 'r']
  | '\t' => ['\\', 't']
  | '\x08' => ['\\', 'b']
  | '\x0c' => ['\\', 'f']
  | c =>
    if Nat.blt c.toNat 0x20 then
      ['\\', 'u', '0', '0', hexDigit (c.toNat / 16), hexDigit (c.toNat % 16)]
    else [c]

def quote (cs : List Char) : List Char :=
  '"' :: (cs.flatMap escapeChar ++ ['"'])

def quoted (s : String) : String :=
  String.ofList (quote s.toList)

end ComponentDoc.Text
