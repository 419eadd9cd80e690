import ClassMachine.Bytes

/-!
UTF-8. `next?` reads the character at the head of a byte string, `chars?` a whole string; a
surrogate, an overlong form or a stray byte is no character.
-/

namespace ClassMachine.Utf8

def encode (c : Char) : Bytes := String.utf8EncodeChar c

/-- What a first byte announces: its own bits, the number of bytes to follow, and the least
code point that needs that many. -/
def lead (a : UInt8) : Option (Nat × Nat × Nat) :=
  if a < 0x80 then some (a.toNat, 0, 0)
  else if a < 0xC0 then none
  else if a < 0xE0 then some (a.toNat % 32, 1, 0x80)
  else if a < 0xF0 then some (a.toNat % 16, 2, 0x800)
  else if a < 0xF8 then some (a.toNat % 8, 3, 0x10000)
  else none

def continuation : Nat → Nat → Bytes → Option Nat
  | 0, n, _ => some n
  | _ + 1, _, [] => none
  | count + 1, n, b :: rest =>
    if 0x80 ≤ b && b < 0xC0 then continuation count (n * 64 + b.toNat % 64) rest else none

def next? : Bytes → Option (Char × Nat)
  | [] => none
  | a :: rest => do
    let (bits, count, least) ← lead a
    let n ← continuation count bits rest
    if h : least ≤ n ∧ n.isValidChar then some (Char.ofNatAux n h.2, count) else none

/-- Reads characters, after `skip` bytes that belong to the character before. -/
def charsFrom? : Nat → Bytes → Option (List Char)
  | _, [] => some []
  | skip + 1, _ :: rest => charsFrom? skip rest
  | 0, b :: rest => do
    let (c, count) ← next? (b :: rest)
    let cs ← charsFrom? count rest
    pure (c :: cs)

def chars? (s : Bytes) : Option (List Char) := charsFrom? 0 s

def valid (s : Bytes) : Bool := (chars? s).isSome

def ofChars (cs : List Char) : Bytes := cs.flatMap encode

end ClassMachine.Utf8
