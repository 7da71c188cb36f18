import AtMostOnce.Text.Hidden

/-! Text between quotation marks, as error messages show it. -/
namespace AtMostOnce.Text

/-- Lower-case hexadecimal digits without leading zeros. -/
def hexDigits (n : Nat) : List Char := Nat.toDigits 16 n

/-- How quoted text shows one character. -/
def shown (c : Char) : List Char :=
  match c with
  | '"' => ['\\', '"']
  | '\\' => ['\\', '\\']
  | '\x00' => ['\\', '0']
  | '\t' => ['\\', 't']
  | '\n' => ['\\', 'n']
  | '\r' => ['\\', 'r']
  | c => if Hidden.isHidden c then '\\' :: 'u' :: '\x7b' :: hexDigits c.toNat ++ ['\x7d'] else [c]

/-- The text in quotation marks, with every character that would not show spelt out. -/
def quoted (s : String) : String := String.ofList ('"' :: s.toList.flatMap shown ++ ['"'])

end AtMostOnce.Text
