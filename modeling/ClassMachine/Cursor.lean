import ClassMachine.Bytes

/-!
Reading big-endian fields from a byte string. A read that finds too few bytes consumes what is
left and reports how far it got.
-/

namespace ClassMachine

structure Cursor where
  rest : Bytes
  offset : Nat := 0

/-- A read of `need` bytes at `offset`, where only `got` were left. -/
structure Truncation where
  offset : Nat
  need : Nat
  got : Nat
deriving DecidableEq

/-- A read: it succeeds, or is truncated; the cursor moves either way. -/
abbrev Reader := EStateM Truncation Cursor

namespace Cursor

def short {α : Type} (need : Nat) : Reader α := fun c =>
  .error ⟨c.offset, need, c.rest.length⟩ ⟨[], c.offset + c.rest.length⟩

def u1 : Reader UInt8 := fun c =>
  match c.rest with
  | a :: rest => .ok a ⟨rest, c.offset + 1⟩
  | _ => short 1 c

def u2 : Reader UInt16 := fun c =>
  match c.rest with
  | a :: b :: rest => .ok (Bytes.toU2 a b) ⟨rest, c.offset + 2⟩
  | _ => short 2 c

def u4 : Reader UInt32 := fun c =>
  match c.rest with
  | a :: b :: x :: y :: rest => .ok (Bytes.toU4 a b x y) ⟨rest, c.offset + 4⟩
  | _ => short 4 c

def take (n : Nat) : Reader Bytes := fun c =>
  if n ≤ c.rest.length then .ok (c.rest.take n) ⟨c.rest.drop n, c.offset + n⟩ else short n c

/-- The next `n` bytes; none when `n` is negative. -/
def bytes (n : Int) : Reader Bytes := take n.toNat

def skip (n : Int) : Reader Unit := do
  let _ ← take n.toNat

end Cursor

def Truncation.message (t : Truncation) : Bytes :=
  utf8 s!"truncated input at offset {t.offset}: need {t.need} bytes, have {t.got}"

end ClassMachine
