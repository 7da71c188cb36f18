/-! Strings and flat records written as compact text. -/
namespace AtMostOnce.Json

/-- A lower-case hexadecimal digit. -/
def hexDigit (n : Nat) : Char := if n < 10 then Char.ofNat (48 + n) else Char.ofNat (87 + n)

/-- How a string literal spells one character: quotation mark, backslash and the characters below
the space are escaped, and no others. -/
def spelled (c : Char) : List Char :=
  match c with
  | '"' => ['\\', '"']
  | '\\' => ['\\', '\\']
  | '\x08' => ['\\', 'b']
  | '\t' => ['\\', 't']
  | '\n' => ['\\', 'n']
  | '\x0c' => ['\\', 'f']
  | '\r' => ['\\', 'r']
  | c =>
    if c.toNat < 0x20 then
      ['\\', 'u', '0', '0', hexDigit (c.toNat / 16), hexDigit (c.toNat % 16)]
    else [c]

/-- A string literal. -/
def literal (s : String) : String := String.ofList ('"' :: s.toList.flatMap spelled ++ ['"'])

/-- A record of texts, its fields in the given order. -/
def record (fields : List (String × String)) : String :=
  let written := fields.map fun f => literal f.1 ++ ":" ++ literal f.2
  "\x7b" ++ ",".intercalate written ++ "\x7d"

end AtMostOnce.Json
