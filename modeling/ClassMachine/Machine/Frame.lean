import ClassMachine.Machine.Error

/-!
A frame: the code of one method in execution, its local variables and its operand stack.
-/

namespace ClassMachine

open Machine (Cause)

structure Frame where
  method : Bytes := []
  code : Bytes := []
  maxStack : Nat := 0
  locals : List Value := []
  /-- The operand stack, the top first. -/
  stack : List Value := []
  pc : Int := 0
  executed : Nat := 0

namespace Frame

/-- The slots of `values`, cut or filled with void to `n`. -/
def seed (n : Nat) (values : List Value) : List Value :=
  values.take n ++ List.replicate (n - values.length) .void

def depth (f : Frame) : Nat := f.stack.length

def push (f : Frame) (v : Value) : Except Cause Frame :=
  if f.maxStack ≤ f.depth then .error (.stackOverflow f.pc f.maxStack)
  else .ok { f with stack := v :: f.stack }

def pop (f : Frame) : Except Cause (Value × Frame) :=
  match f.stack with
  | [] => .error (.stackUnderflow f.pc 1 0)
  | v :: rest => .ok (v, { f with stack := rest })

/-- Pops `n` values; the deepest comes first. -/
def popN (f : Frame) (n : Nat) : Except Cause (List Value × Frame) :=
  if f.depth < n then .error (.stackUnderflow f.pc n f.depth)
  else .ok ((f.stack.take n).reverse, { f with stack := f.stack.drop n })

def peek (f : Frame) : Except Cause Value :=
  match f.stack with
  | [] => .error (.stackUnderflow f.pc 1 0)
  | v :: _ => .ok v

def getLocal (f : Frame) (index : Int) : Except Cause Value :=
  match index with
  | .ofNat i =>
    match f.locals[i]? with
    | some v => .ok v
    | none => .error (.localIndex f.pc index f.locals.length)
  | .negSucc _ => .error (.localIndex f.pc index f.locals.length)

def setLocal (f : Frame) (index : Int) (v : Value) : Except Cause Frame :=
  match index with
  | .ofNat i =>
    if i < f.locals.length then .ok { f with locals := f.locals.set i v }
    else .error (.localIndex f.pc index f.locals.length)
  | .negSucc _ => .error (.localIndex f.pc index f.locals.length)

end Frame

end ClassMachine
