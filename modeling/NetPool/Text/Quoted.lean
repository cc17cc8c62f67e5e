import NetPool.Text.Unseen

/-! Quoted texts for messages: what a reader could not see is written as an escape. -/

namespace NetPool.Text

def hexNumeral (n : Nat) : List Char := Nat.toDigits 16 n

def quotedChar (c : Char) : List Char :=
  match c.toNat with
  | 0x22 => ['\\', '\"']
  | 0x5C => ['\\', '\\']
  | 0x09 => ['\\', 't']
  | 0x0A => ['\\', 'n']
  | 0x0D => ['\\', 'r']
  | 0x00 => ['\\', '0']
  | n => if isUnseen c then ['\\', 'u', '\x7b'] ++ hexNumeral n ++ ['\x7d'] else [c]

def quoted (s : String) : String :=
  String.ofList ('\"' :: s.toList.flatMap quotedChar ++ ['\"'])

end NetPool.Text
