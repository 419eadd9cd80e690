import ClassMachine.Text.Printable
import ClassMachine.Text.Utf8

/-!
Quoted text. A byte string is shown between double quotes; printable characters stand for
themselves, and every other character, and every byte that is part of none, is escaped.
-/

namespace ClassMachine.Text

/-- The escape of a byte that is part of no character, or of an ASCII control character. -/
def escapeByte (n : Nat) : Bytes := utf8 "\\x" ++ Bytes.hex 2 n

def escapeChar (c : Char) : Bytes :=
  match c.toNat with
  | 0x07 => utf8 "\\a"
  | 0x08 => utf8 "\\b"
  | 0x09 => utf8 "\\t"
  | 0x0A => utf8 "\\n"
  | 0x0B => utf8 "\\v"
  | 0x0C => utf8 "\\f"
  | 0x0D => utf8 "\\r"
  | 0x22 => utf8 "\\\""
  | 0x5C => utf8 "\\\\"
  | n =>
    if printable c then Utf8.encode c
    else if n < 0x20 || n == 0x7F then escapeByte n
    else if n < 0x10000 then utf8 "\\u" ++ Bytes.hex 4 n
    else utf8 "\\U" ++ Bytes.hex 8 n

/-- The text between the quotes, after `skip` bytes of the character before. -/
def escapeFrom : Nat → Bytes → Bytes
  | _, [] => []
  | skip + 1, _ :: rest => escapeFrom skip rest
  | 0, b :: rest =>
    match Utf8.next? (b :: rest) with
    | some (c, count) => escapeChar c ++ escapeFrom count rest
    | none => escapeByte b.toNat ++ escapeFrom 0 rest

def quote (s : Bytes) : Bytes := 34 :: escapeFrom 0 s ++ [34]

end ClassMachine.Text
