import ClassMachine.ClassFile.Error

/-!
The constant pool of a class file. Indices start at 1 and are not checked when the file is read:
every look-up checks the entry it finds, and a reference is followed link by link.
-/

namespace ClassMachine

open ClassFile (Error)

/-- A constant pool: the count that the file declares, and the entries from index 1 on. -/
structure Pool where
  count : UInt16 := 0
  entries : List Constant := []

structure MemberRef where
  kind : Kind
  className : Bytes
  name : Bytes
  descriptor : Bytes
deriving DecidableEq

namespace MemberRef

def key (m : MemberRef) : Bytes := m.name ++ utf8 ":" ++ m.descriptor

def text (m : MemberRef) : Bytes := m.className ++ utf8 "." ++ m.key

end MemberRef

namespace Pool

def get? (p : Pool) (index : UInt16) : Option Constant :=
  if index = 0 then none else p.entries[index.toNat - 1]?

def kindAt (p : Pool) (index : UInt16) : Kind :=
  match p.get? index with
  | some c => c.kind
  | none => .none

def unresolved (p : Pool) (index : UInt16) (expected : Kind) : Error :=
  .unresolved index expected (p.kindAt index)

end Pool

/-- The ways to look an index up: `fetch` gives what the entry there holds, if that is of the
expected kind. -/
class LookUp (m : Type → Type) where
  fetch {α : Type} (p : Pool) (index : UInt16) (kind : Kind) (content : Constant → Option α) : m α
  kindAt (p : Pool) (index : UInt16) : m Kind
  resolving {α : Type} (part : String) (x : m α) : m α

namespace LookUp
variable {m : Type → Type} [Monad m] [LookUp m]

def entry (p : Pool) (index : UInt16) (kind : Kind) : m Constant :=
  fetch p index kind fun c => if c.kind = kind then some c else none

def text (p : Pool) (index : UInt16) : m Bytes := fetch p index .utf8 Constant.utf8?

def className (p : Pool) (index : UInt16) : m Bytes := do
  let name ← fetch p index .cls Constant.cls?
  resolving "class name" (text p name)

def stringValue (p : Pool) (index : UInt16) : m Bytes := do
  let chars ← fetch p index .string Constant.string?
  resolving "string" (text p chars)

def nameAndType (p : Pool) (index : UInt16) : m (Bytes × Bytes) := do
  let (name, descriptor) ← fetch p index .nameAndType Constant.nameAndType?
  let name ← resolving "member name" (text p name)
  let descriptor ← resolving "member descriptor" (text p descriptor)
  pure (name, descriptor)

def member (p : Pool) (index : UInt16) (kind : Kind) : m MemberRef := do
  let (cls, pair) ← fetch p index kind (Constant.ref? kind)
  let className ← resolving s!"{kind.name} class" (className p cls)
  let (name, descriptor) ← resolving s!"{kind.name} name and type" (nameAndType p pair)
  pure { kind, className, name, descriptor }

def field (p : Pool) (index : UInt16) : m MemberRef := member p index .fieldref

def method (p : Pool) (index : UInt16) : m MemberRef := do
  let kind ← kindAt p index
  if kind = .interfaceMethodref then member p index .interfaceMethodref
  else member p index .methodref

end LookUp

instance : LookUp (Except Error) where
  fetch p index kind content :=
    match (p.get? index).bind content with
    | some a => .ok a
    | none => .error (p.unresolved index kind)
  kindAt p index := .ok (p.kindAt index)
  resolving part x := x.mapError (.during .resolving part)

namespace Pool

abbrev fetch (p : Pool) (index : UInt16) (kind : Kind) : Except Error Constant :=
  LookUp.entry p index kind

abbrev text (p : Pool) (index : UInt16) : Except Error Bytes := LookUp.text p index

abbrev className (p : Pool) (index : UInt16) : Except Error Bytes := LookUp.className p index

abbrev stringValue (p : Pool) (index : UInt16) : Except Error Bytes := LookUp.stringValue p index

abbrev nameAndType (p : Pool) (index : UInt16) : Except Error (Bytes × Bytes) :=
  LookUp.nameAndType p index

abbrev member (p : Pool) (index : UInt16) (kind : Kind) : Except Error MemberRef :=
  LookUp.member p index kind

abbrev field (p : Pool) (index : UInt16) : Except Error MemberRef := LookUp.field p index

abbrev method (p : Pool) (index : UInt16) : Except Error MemberRef := LookUp.method p index

end Pool

end ClassMachine
