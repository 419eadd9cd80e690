import ClassMachine.ClassFile.Basic

/-!
Snapshots: what a class file holds, as numbers and bytes, without the attributes other than code.
-/

namespace ClassMachine

namespace Snapshot

structure Constant where
  index : UInt16 := 0
  tag : UInt8 := 0
  text : Bytes := []
  a : UInt16 := 0
  b : UInt16 := 0
deriving DecidableEq

/-- The code of a method. The bytes can be missing altogether. -/
structure Code where
  maxStack : UInt16 := 0
  maxLocals : UInt16 := 0
  bytes : Option Bytes := none
deriving DecidableEq

structure Member where
  flags : UInt16 := 0
  nameIndex : UInt16 := 0
  descriptorIndex : UInt16 := 0
  code : Option Code := none
deriving DecidableEq

end Snapshot

/-- What a class file holds. Each list can be missing altogether, which is not the same as being
empty. -/
structure Snapshot where
  minor : UInt16 := 0
  major : UInt16 := 0
  flags : UInt16 := 0
  thisClass : UInt16 := 0
  superClass : UInt16 := 0
  interfaces : Option (List UInt16) := none
  constants : Option (List Snapshot.Constant) := none
  fields : Option (List Snapshot.Member) := none
  methods : Option (List Snapshot.Member) := none
deriving DecidableEq

namespace Snapshot

def some? {α : Type} : List α → Option (List α)
  | [] => none
  | l => some l

def Constant.of (index : UInt16) (c : ClassMachine.Constant) : Constant :=
  let tag := c.kind.tag
  match c with
  | .utf8 text => { index, tag, text }
  | .cls a => { index, tag, a }
  | .string a => { index, tag, a }
  | .ref _ a b => { index, tag, a, b }
  | .nameAndType a b => { index, tag, a, b }

def Member.of (m : ClassMachine.Member) (code : Option ClassMachine.Code) : Member :=
  { flags := m.flags.bits, nameIndex := m.nameIndex, descriptorIndex := m.descriptorIndex,
    code := code.map fun c =>
      { maxStack := c.maxStack, maxLocals := c.maxLocals, bytes := some c.bytes } }

def of (c : ClassFile) : Snapshot :=
  { minor := c.minor, major := c.major, flags := c.flags.bits,
    thisClass := c.thisClass, superClass := c.superClass,
    interfaces := some c.interfaces,
    constants := some? (c.pool.entries.mapIdx fun i e => Constant.of (UInt16.ofNat (i + 1)) e),
    fields := some? (c.fields.map fun m => Member.of m none),
    methods := some? (c.methods.map fun m => Member.of m m.code?) }

end Snapshot

end ClassMachine
