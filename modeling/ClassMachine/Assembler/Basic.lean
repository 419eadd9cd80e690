import ClassMachine.ClassFile.Basic
import ClassMachine.Table

/-!
Assembling class files: constants are added to the pool and known by the place they got, and
members and attributes are named by text. A text and a class is added once for each name; every
other constant is added each time. Places are kept in 16 bits.
-/

namespace ClassMachine

namespace Assembler

structure Attribute where
  name : Bytes
  info : Bytes

/-- The code of a method. The exception table has that many entries of eight zero bytes. -/
structure Code where
  maxStack : UInt16 := 0
  maxLocals : UInt16 := 0
  bytes : Bytes := []
  exceptionEntries : Nat := 0
  attributes : List Attribute := []

structure Member where
  flags : UInt16 := 0
  name : Bytes
  descriptor : Bytes
  code : Option Code := none
  attributes : List Attribute := []

structure RawConstant where
  tag : UInt8
  payload : Bytes

end Assembler

structure Assembler where
  magic : UInt32 := ClassFile.magic
  minor : UInt16 := 0
  major : UInt16 := 50
  flags : UInt16 := 0x0021
  pool : List Assembler.RawConstant := []
  texts : Table Bytes UInt16 := {}
  classes : Table Bytes UInt16 := {}
  thisClass : UInt16 := 0
  superClass : UInt16 := 0
  interfaces : List UInt16 := []
  fields : List Assembler.Member := []
  methods : List Assembler.Member := []
  attributes : List Assembler.Attribute := []
  trailing : Bytes := []

abbrev Assembly := StateM Assembler

namespace Assembler

def raw (tag : UInt8) (payload : Bytes) : Assembly UInt16 := fun a =>
  let pool := a.pool ++ [⟨tag, payload⟩]
  (UInt16.ofNat pool.length, { a with pool })

def constant (kind : Kind) (payload : Bytes) : Assembly UInt16 := raw kind.tag payload

def text (s : Bytes) : Assembly UInt16 := do
  match (← get).texts.get? s with
  | some i => return i
  | none =>
    let i ← constant .utf8 (Bytes.u2 (UInt16.ofNat s.length) ++ s)
    modify fun a => { a with texts := a.texts.set s i }
    return i

def cls (name : Bytes) : Assembly UInt16 := do
  match (← get).classes.get? name with
  | some i => return i
  | none =>
    let n ← text name
    let i ← constant .cls (Bytes.u2 n)
    modify fun a => { a with classes := a.classes.set name i }
    return i

def string (s : Bytes) : Assembly UInt16 := do
  let i ← text s
  constant .string (Bytes.u2 i)

def nameAndType (name descriptor : Bytes) : Assembly UInt16 := do
  let n ← text name
  let d ← text descriptor
  constant .nameAndType (Bytes.u2 n ++ Bytes.u2 d)

def ref (kind : RefKind) (className name descriptor : Bytes) : Assembly UInt16 := do
  let c ← cls className
  let n ← nameAndType name descriptor
  constant kind.kind (Bytes.u2 c ++ Bytes.u2 n)

def internAttributes : List Attribute → Assembly Unit
  | [] => pure ()
  | a :: rest => do
    let _ ← text a.name
    internAttributes rest

def intern (m : Member) : Assembly Unit := do
  let _ ← text m.name
  let _ ← text m.descriptor
  internAttributes m.attributes
  match m.code with
  | none => pure ()
  | some code =>
    let _ ← text (utf8 "Code")
    internAttributes code.attributes

def interface (name : Bytes) : Assembly Unit := do
  let i ← cls name
  modify fun a => { a with interfaces := a.interfaces ++ [i] }

def field (m : Member) : Assembly Unit := do
  intern m
  modify fun a => { a with fields := a.fields ++ [m] }

def method (m : Member) : Assembly Unit := do
  intern m
  modify fun a => { a with methods := a.methods ++ [m] }

def addAttribute (attr : Attribute) : Assembly Unit := do
  let _ ← text attr.name
  modify fun a => { a with attributes := a.attributes ++ [attr] }

def addTrailing (b : Bytes) : Assembly Unit :=
  modify fun a => { a with trailing := a.trailing ++ b }

def objectName : Bytes := utf8 "java/lang/Object"

def start (name : Bytes) : Assembler :=
  let act : Assembly (UInt16 × UInt16) := do
    let this ← cls name
    let super ← cls objectName
    return (this, super)
  let ((this, super), a) := act {}
  { a with thisClass := this, superClass := super }

end Assembler

end ClassMachine
