import ClassMachine.ClassFile.Pool
import ClassMachine.Text.Quoted

/-!
A class file as it is read: indices are kept as they stand in the file, and resolved through the
constant pool when they are used.
-/

namespace ClassMachine

structure AccessFlags where
  bits : UInt16
deriving DecidableEq

namespace AccessFlags

def isPublic (f : AccessFlags) : Bool := f.bits &&& 0x0001 != 0
def isStatic (f : AccessFlags) : Bool := f.bits &&& 0x0008 != 0
def isNative (f : AccessFlags) : Bool := f.bits &&& 0x0100 != 0
def isInterface (f : AccessFlags) : Bool := f.bits &&& 0x0200 != 0
def isAbstract (f : AccessFlags) : Bool := f.bits &&& 0x0400 != 0

def names (f : AccessFlags) : List String :=
  [("public", f.isPublic), ("static", f.isStatic), ("native", f.isNative),
    ("interface", f.isInterface), ("abstract", f.isAbstract)].filterMap
      fun (name, set) => if set then some name else none

end AccessFlags

/-- An attribute. The exception table of a Code attribute is not kept. -/
inductive Attribute
  | code (nameIndex : UInt16) (maxStack maxLocals : UInt16) (bytes : Bytes)
      (attributes : List Attribute)
  | other (nameIndex : UInt16) (name : Bytes) (info : Bytes)

structure Code where
  maxStack : UInt16
  maxLocals : UInt16
  bytes : Bytes
  attributes : List Attribute

def Attribute.code? : Attribute → Option Code
  | .code _ maxStack maxLocals bytes attributes => some { maxStack, maxLocals, bytes, attributes }
  | .other .. => none

structure Member where
  flags : AccessFlags
  nameIndex : UInt16
  descriptorIndex : UInt16
  attributes : List Attribute

namespace Member

def name (m : Member) (pool : Pool) : Except ClassFile.Error Bytes := pool.text m.nameIndex

def descriptor (m : Member) (pool : Pool) : Except ClassFile.Error Bytes :=
  pool.text m.descriptorIndex

/-- The first Code attribute; abstract and native methods have none. -/
def code? (m : Member) : Option Code := m.attributes.findSome? Attribute.code?

def textOr (index : UInt16) : Except ClassFile.Error Bytes → Bytes
  | .ok s => s
  | .error _ => utf8 s!"#{index}"

/-- The name and the descriptor, each by its index where it does not resolve. -/
def text (m : Member) (pool : Pool) : Bytes :=
  textOr m.nameIndex (m.name pool) ++ utf8 ":" ++ textOr m.descriptorIndex (m.descriptor pool)

end Member

structure ClassFile where
  minor : UInt16 := 0
  major : UInt16 := 0
  pool : Pool := {}
  flags : AccessFlags := ⟨0⟩
  thisClass : UInt16 := 0
  superClass : UInt16 := 0
  interfaces : List UInt16 := []
  fields : List Member := []
  methods : List Member := []
  attributes : List Attribute := []

namespace ClassFile

def magic : UInt32 := 0xCAFEBABE

def defaultMajor : UInt16 := 50

def className (c : ClassFile) : Except Error Bytes := c.pool.className c.thisClass

/-- The name of the class it extends; none when the index is 0. -/
def superName (c : ClassFile) : Except Error Bytes :=
  if c.superClass = 0 then .ok [] else c.pool.className c.superClass

def resolvesTo (found : Except Error Bytes) (wanted : Bytes) : Bool :=
  match found with
  | .ok s => s == wanted
  | .error _ => false

end ClassFile

/-- Where members of a class file are searched. -/
class Searching (look : outParam (Type → Type)) (m : Type → Type) where
  resolvesTo (found : look Bytes) (wanted : Bytes) : m Bool
  first (members : List Member) (test : Member → m Bool) : m (Option Member)

namespace Searching
variable {look m : Type → Type} [Monad look] [LookUp look] [Monad m] [Searching look m]

def findMethod (c : ClassFile) (name descriptor : Bytes) : m (Option Member) :=
  first c.methods fun member => do
    if ← resolvesTo (LookUp.text c.pool member.nameIndex) name then
      resolvesTo (LookUp.text c.pool member.descriptorIndex) descriptor
    else pure false

def findMethodByName (c : ClassFile) (name : Bytes) : m (Option Member) :=
  first c.methods fun member => resolvesTo (LookUp.text c.pool member.nameIndex) name

/-- The first method with the given name, and with the given descriptor unless that is empty. -/
def entry (c : ClassFile) (name descriptor : Bytes) : m (Option Member) :=
  if descriptor.isEmpty then findMethodByName c name else findMethod c name descriptor

end Searching

instance : Searching (Except ClassFile.Error) Id where
  resolvesTo := ClassFile.resolvesTo
  first members test := members.find? test

namespace ClassFile

def findMethod (c : ClassFile) (name descriptor : Bytes) : Option Member :=
  Id.run (Searching.findMethod c name descriptor)

def findMethodByName (c : ClassFile) (name : Bytes) : Option Member :=
  Id.run (Searching.findMethodByName c name)

def entry (c : ClassFile) (name descriptor : Bytes) : Option Member :=
  Id.run (Searching.entry c name descriptor)

end ClassFile

inductive Diagnostic
  /-- An attribute that is kept as bytes; `offset` is that of its payload. -/
  | unhandledAttribute (offset : Nat) (name : Bytes) (length : UInt32)
  | trailingData (offset : Nat)
deriving DecidableEq

namespace Diagnostic

def offset : Diagnostic → Nat
  | .unhandledAttribute offset _ _ => offset
  | .trailingData offset => offset

def kind : Diagnostic → String
  | .unhandledAttribute .. => "unhandled_attribute"
  | .trailingData _ => "trailing_data"

def message : Diagnostic → Bytes
  | .unhandledAttribute _ name length =>
    utf8 "unhandled attribute " ++ Text.quote name ++ utf8 s!" ({length} bytes)"
  | .trailingData _ => utf8 "bytes remain after class attributes"

def text (d : Diagnostic) : Bytes := utf8 s!"{d.kind} at offset {d.offset}: " ++ d.message

end Diagnostic

end ClassMachine
