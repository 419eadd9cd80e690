import ClassMachine.Bytes

/-!
The values that methods work on: 32-bit integers, strings, references to objects, and the absence
of a value.
-/

namespace ClassMachine

abbrev ClassId := Nat

abbrev ObjectId := Nat

inductive Value
  /-- No value: the result of a void method, and what an unset local variable holds. -/
  | void
  | int (n : Int32)
  | str (s : Bytes)
  | null
  | obj (id : ObjectId)
  /-- A value of a kind that no instruction or method knows. -/
  | alien (kind : Int)
deriving DecidableEq

structure ValueKind where
  code : Int
deriving DecidableEq

namespace ValueKind

def void : ValueKind := ⟨0⟩
def int : ValueKind := ⟨1⟩
def string : ValueKind := ⟨2⟩
def object : ValueKind := ⟨3⟩

def name (k : ValueKind) : String :=
  match k.code with
  | 0 => "void"
  | 1 => "int"
  | 2 => "string"
  | 3 => "object"
  | n => s!"kind({n})"

end ValueKind

namespace Value

def kind : Value → ValueKind
  | .void => .void
  | .int _ => .int
  | .str _ => .string
  | .null | .obj _ => .object
  | .alien k => ⟨k⟩

/-- The value of a kind that says the least: zero, the empty string, the reference to nothing. -/
def ofKind (k : Int) : Value :=
  match k with
  | 0 => .void
  | 1 => .int 0
  | 2 => .str []
  | 3 => .null
  | k => .alien k

def isVoid (v : Value) : Bool := v == .void

def isReference : Value → Bool
  | .str _ | .null | .obj _ => true
  | _ => false

end Value

end ClassMachine
