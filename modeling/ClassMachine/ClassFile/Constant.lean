import ClassMachine.Bytes

/-!
The entries of a constant pool and their kinds. A kind is a tag byte; some tags are modelled,
some are only recognized, and the rest are unknown.
-/

namespace ClassMachine

structure Kind where
  tag : UInt8
deriving DecidableEq

namespace Kind

def none : Kind := ⟨0⟩
def utf8 : Kind := ⟨1⟩
def cls : Kind := ⟨7⟩
def string : Kind := ⟨8⟩
def fieldref : Kind := ⟨9⟩
def methodref : Kind := ⟨10⟩
def interfaceMethodref : Kind := ⟨11⟩
def nameAndType : Kind := ⟨12⟩

def name (k : Kind) : String :=
  match k.tag with
  | 0 => "none"
  | 1 => "Utf8"
  | 3 => "Integer"
  | 4 => "Float"
  | 5 => "Long"
  | 6 => "Double"
  | 7 => "Class"
  | 8 => "String"
  | 9 => "Fieldref"
  | 10 => "Methodref"
  | 11 => "InterfaceMethodref"
  | 12 => "NameAndType"
  | 15 => "MethodHandle"
  | 16 => "MethodType"
  | 18 => "InvokeDynamic"
  | t => s!"tag({t})"

def supported (k : Kind) : Bool :=
  k ∈ [utf8, cls, string, fieldref, methodref, interfaceMethodref, nameAndType]

/-- The kinds of the class file format, supported or not. -/
def recognized (k : Kind) : Bool :=
  k.supported || k.tag ∈ [3, 4, 5, 6, 15, 16, 18]

end Kind

inductive RefKind
  | field
  | method
  | interfaceMethod
deriving DecidableEq

def RefKind.kind : RefKind → Kind
  | .field => .fieldref
  | .method => .methodref
  | .interfaceMethod => .interfaceMethodref

/-- One entry of a constant pool. Indices refer to other entries of the same pool. -/
inductive Constant
  | utf8 (bytes : Bytes)
  | cls (name : UInt16)
  | string (text : UInt16)
  | ref (kind : RefKind) (cls nameAndType : UInt16)
  | nameAndType (name descriptor : UInt16)
deriving DecidableEq

def Constant.kind : Constant → Kind
  | .utf8 _ => .utf8
  | .cls _ => .cls
  | .string _ => .string
  | .ref k _ _ => k.kind
  | .nameAndType _ _ => .nameAndType

/-! What an entry of each kind holds. -/

namespace Constant

def utf8? : Constant → Option Bytes
  | .utf8 bytes => some bytes
  | _ => none

def cls? : Constant → Option UInt16
  | .cls name => some name
  | _ => none

def string? : Constant → Option UInt16
  | .string text => some text
  | _ => none

def nameAndType? : Constant → Option (UInt16 × UInt16)
  | .nameAndType name descriptor => some (name, descriptor)
  | _ => none

def ref? (kind : Kind) : Constant → Option (UInt16 × UInt16)
  | .ref k owner pair => if k.kind = kind then some (owner, pair) else none
  | _ => none

end Constant

end ClassMachine
