import ClassMachine.ClassFile.Basic
import ClassMachine.Library.Registry
import ClassMachine.Machine.Frame

/-!
The effect of one instruction on a frame and a store. When it fails, the operands that it popped
stay popped.
-/

namespace ClassMachine.Machine

structure Program where
  pool : Pool := {}
  methods : Methods := {}

structure Activation where
  frame : Frame
  store : Store

abbrev Effect := EStateM Cause Activation

inductive Control
  | next
  | jump (target : Int)
  | done (result : Value)

namespace Effect

def pc : Effect Int := fun a => .ok a.frame.pc a

def onFrame (change : Frame → Except Cause Frame) : Effect Unit := fun a =>
  match change a.frame with
  | .ok frame => .ok () { a with frame }
  | .error e => .error e a

def ofFrame {α : Type} (read : Frame → Except Cause α) : Effect α := fun a =>
  match read a.frame with
  | .ok x => .ok x a
  | .error e => .error e a

def takeFrame {α : Type} (take : Frame → Except Cause (α × Frame)) : Effect α := fun a =>
  match take a.frame with
  | .ok (x, frame) => .ok x { a with frame }
  | .error e => .error e a

def push (v : Value) : Effect Unit := onFrame (·.push v)

def pop : Effect Value := takeFrame Frame.pop

def popN (n : Nat) : Effect (List Value) := takeFrame (·.popN n)

def peek : Effect Value := ofFrame Frame.peek

def getLocal (slot : Nat) : Effect Value := ofFrame (·.getLocal slot)

def setLocal (slot : Nat) (v : Value) : Effect Unit := onFrame (·.setLocal slot v)

def link {α : Type} : Except ClassFile.Error α → Effect α
  | .ok x => pure x
  | .error e => throw (.link e)

def ofStore {α : Type} (read : Store → Except Library.Error α) : Effect α := fun a =>
  match read a.store with
  | .ok x => .ok x a
  | .error e => .error (.library e) a

def call (m : Method) (args : List Value) : Effect Value := fun a =>
  match m.invoke args a.store with
  | .ok v store => .ok v { a with store }
  | .error e store => .error (.library e) { a with store }

def fault {α : Type} (c : Cause) : Effect α := throw c

def findMethod (program : Program) (c : ClassId) (isStatic : Bool) (ref : MemberRef) :
    Effect Method :=
  ofStore fun store =>
    Registry.method { store, methods := program.methods } c isStatic ref.name ref.descriptor

def newObject (c : ClassId) : Effect Value := fun a =>
  let (o, store) := a.store.newObject c
  .ok (.obj o) { a with store }

end Effect

/-- Where instructions are executed: constants are looked up in `look`, and what is found for a
method is a `callee`. -/
class Executing (look : outParam (Type → Type)) (callee : outParam Type) (m : Type → Type) where
  pop : m Value
  popN (n : Nat) : m (List Value)
  peek : m Value
  getLocal (slot : Nat) : m Value
  setLocal (slot : Nat) (v : Value) : m Unit
  link {α : Type} (x : look α) : m α
  findMethod (program : Program) (c : ClassId) (isStatic : Bool) (ref : MemberRef) : m callee
  arity (found : callee) : Nat
  call (found : callee) (args : List Value) : m Value

instance : Executing (Except ClassFile.Error) Method Effect where
  pop := Effect.pop
  popN := Effect.popN
  peek := Effect.peek
  getLocal := Effect.getLocal
  setLocal := Effect.setLocal
  link := Effect.link
  findMethod := Effect.findMethod
  arity := Method.arity
  call := Effect.call

/-! Parts of instructions that reach for nothing. -/

def operandType {α : Type} (op : UInt8) (v : Value) (want : String) : Effect α := do
  throw (.operandType op (← Effect.pc) v.kind want)

def checkSlot (op : UInt8) (kind : SlotKind) (v : Value) : Effect Unit :=
  match kind with
  | .int => if v.kind = .int then pure () else operandType op v "int"
  | .reference => if v.isReference then pure () else operandType op v "reference"

def branchTo (offset : Int16) : Effect Control := do
  let frame ← Effect.ofFrame .ok
  let target := frame.pc + offset.toInt
  if 0 ≤ target ∧ target < frame.code.length then pure (.jump target)
  else throw (.branchTarget frame.pc target frame.code.length)

def makeObject (c : ClassId) : Effect Unit := do
  Effect.push (← Effect.newObject c)

/-! Instructions. -/

section Instructions
open Executing
open Effect (push ofStore fault)
variable {look : Type → Type} {callee : Type} {m : Type → Type} [Monad look] [LookUp look]
  [Monad m] [MonadLiftT Effect m] [Executing look callee m]

def popInt (op : UInt8) : m Int32 := do
  match ← pop with
  | .int n => pure n
  | v => operandType op v "int"

/-- Pops two integers; the second one was pushed last. -/
def popInts (op : UInt8) : m (Int32 × Int32) := do
  let frame ← Effect.ofFrame .ok
  if frame.depth < 2 then fault (.stackUnderflow frame.pc 2 frame.depth)
  else
    let b ← popInt op
    let a ← popInt op
    pure (a, b)

def popRef (op : UInt8) : m Value := do
  let v ← pop
  if v.isReference then pure v else operandType op v "reference"

def loadSlot (op : UInt8) (kind : SlotKind) (slot : Nat) : m Unit := do
  let v ← getLocal slot
  checkSlot op kind v
  push v

def storeSlot (op : UInt8) (kind : SlotKind) (slot : Nat) : m Unit := do
  let v ← pop
  checkSlot op kind v
  setLocal slot v

def holds (op : UInt8) : Test → m Bool
  | .eqZero => do return (← popInt op) == 0
  | .neZero => do return (← popInt op) != 0
  | .less => do
    let (a, b) ← popInts op
    return a < b
  | .greaterEq => do
    let (a, b) ← popInts op
    return ¬ a < b
  | .always => return true

def loadConstant (program : Program) (op : UInt8) (index : UInt16) : m Unit := do
  let kind ← link (LookUp.kindAt program.pool index)
  if kind = .string then
    let text ← link (LookUp.stringValue program.pool index)
    push (.str text)
  else if kind = .none then
    let _ ← link (LookUp.entry program.pool index .string)
  else
    let pc ← Effect.pc
    fault (.constantUse op pc index kind)

/-- Calls the method that a constant refers to, with arguments from the stack. A method called in
mode `special` leaves no result. -/
def invokeMethod (program : Program) (mode : Mode) (index : UInt16) : m Unit := do
  let ref ← link (LookUp.method program.pool index)
  let c ← ofStore (·.lookup ref.className)
  let found ← findMethod program c (mode == .static) ref
  let args ← popN (arity m found)
  let v ← call found args
  if mode = .special ∨ v = .void then pure () else push v

def Executing.execute (program : Program) (i : Instruction) : m Control :=
  let op := i.opcode
  match i with
  | .nop => pure .next
  | .iconst n => do push (.int (Int32.ofInt (n.val - 1))); pure .next
  | .bipush n => do push (.int n.toInt32); pure .next
  | .sipush n => do push (.int n.toInt32); pure .next
  | .ldc index => do loadConstant program op index.toUInt16; pure .next
  | .ldcWide index => do loadConstant program op index; pure .next
  | .load kind slot => do loadSlot op kind slot.toNat; pure .next
  | .loadShort kind slot => do loadSlot op kind slot.val; pure .next
  | .store kind slot => do storeSlot op kind slot.toNat; pure .next
  | .storeShort kind slot => do storeSlot op kind slot.val; pure .next
  | .pop => do let _ ← pop; pure .next
  | .dup => do let v ← peek; push v; pure .next
  | .iadd => do
    let (a, b) ← popInts op
    push (.int (a + b))
    pure .next
  | .isub => do
    let (a, b) ← popInts op
    push (.int (a - b))
    pure .next
  | .iinc slot amount => do
    match ← getLocal slot.toNat with
    | .int n => setLocal slot.toNat (.int (n + amount.toInt32)); pure .next
    | v => operandType op v "int"
  | .branch test offset => do if ← holds op test then branchTo offset else pure .next
  | .ireturn => do return .done (.int (← popInt op))
  | .areturn => do return .done (← popRef op)
  | .ret => pure (.done .void)
  | .getstatic index => do
    let ref ← link (LookUp.field program.pool index)
    let c ← ofStore (·.lookup ref.className)
    let v ← ofStore (·.staticField c ref.name)
    push v
    pure .next
  | .invoke mode index => do invokeMethod program mode index; pure .next
  | .new index => do
    let name ← link (LookUp.className program.pool index)
    let c ← ofStore (·.lookup name)
    makeObject c
    pure .next

end Instructions

abbrev execute (program : Program) (i : Instruction) : Effect Control :=
  Executing.execute program i

end ClassMachine.Machine
