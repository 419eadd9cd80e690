import ClassMachine.Bytes

/-!
What a TOML text consists of, before its lines are put together: headers of tables, and keys with
values.
-/

namespace ClassMachine.Toml

abbrev Path := List Bytes

/-- A value without parts. Floating-point numbers and points in time are kept as they are written. -/
inductive Scalar
  | integer (n : Int)
  | float (text : Bytes)
  | boolean (b : Bool)
  | string (s : Bytes)
  | datetime (text : Bytes)
deriving DecidableEq

inductive Expr
  | scalar (v : Scalar)
  | array (items : List Expr)
  | inline (entries : List (Path × Expr))

inductive Line
  /-- `[a.b]`: what follows belongs to the table. -/
  | table (path : Path)
  /-- `[[a.b]]`: what follows belongs to a new element of the array. -/
  | element (path : Path)
  /-- `a.b = value`. -/
  | entry (path : Path) (value : Expr)

def ch (c : Char) : UInt8 := UInt8.ofNat c.toNat

def isBlank (b : UInt8) : Bool := b == ch ' ' || b == ch '\t'

def isBreak (b : UInt8) : Bool := b == ch '\n' || b == ch '\r'

def isDigit (b : UInt8) : Bool := ch '0' ≤ b && b ≤ ch '9'

def isLetter (b : UInt8) : Bool := (ch 'a' ≤ b && b ≤ ch 'z') || (ch 'A' ≤ b && b ≤ ch 'Z')

def isBare (b : UInt8) : Bool := isLetter b || isDigit b || b == ch '_' || b == ch '-'

def digitValue (b : UInt8) : Option Nat :=
  if isDigit b then some (b.toNat - 48)
  else if ch 'a' ≤ b && b ≤ ch 'f' then some (b.toNat - 87)
  else if ch 'A' ≤ b && b ≤ ch 'F' then some (b.toNat - 55)
  else none

end ClassMachine.Toml
