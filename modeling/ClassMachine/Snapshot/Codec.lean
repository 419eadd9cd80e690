import ClassMachine.Cbor.Reader
import ClassMachine.Cbor.Shape
import ClassMachine.Snapshot.Basic

/-!
Snapshots as bytes. A record stands for a map with numbers for names, in their order; a list that is
missing is null in it, while a field of a constant or a member that holds nothing is left out. A
library turns the maps into bytes (`Codec`). The one at hand, `cbor`, uses the concise binary object
representation.
-/

namespace ClassMachine

open Cbor (Item)

namespace Snapshot

def u1Item (n : UInt8) : Item := .uint n.toNat

def u2Item (n : UInt16) : Item := .uint n.toNat

def bytesItem : Option Bytes → Item
  | some b => .bytes b
  | none => Cbor.null

def listItem {α : Type} (element : α → Item) : Option (List α) → Item
  | some l => .array (l.map element)
  | none => Cbor.null

def record (fields : List (Nat × Option Item)) : Item :=
  .map (fields.flatMap fun (name, value) =>
    match value with
    | some v => [.uint name, v]
    | none => [])

def unlessZero (n : UInt16) : Option Item := if n = 0 then none else some (u2Item n)

def Constant.toItem (c : Constant) : Item :=
  record [(1, some (u2Item c.index)), (2, some (u1Item c.tag)),
    (3, if c.text.isEmpty then none else some (.bytes c.text)),
    (4, unlessZero c.a), (5, unlessZero c.b)]

def Code.toItem (c : Code) : Item :=
  record [(1, some (u2Item c.maxStack)), (2, some (u2Item c.maxLocals)),
    (3, some (bytesItem c.bytes))]

def Member.toItem (m : Member) : Item :=
  record [(1, some (u2Item m.flags)), (2, some (u2Item m.nameIndex)),
    (3, some (u2Item m.descriptorIndex)), (4, m.code.map Code.toItem)]

def toItem (s : Snapshot) : Item :=
  record [(1, some (u2Item s.minor)), (2, some (u2Item s.major)), (3, some (u2Item s.flags)),
    (4, some (u2Item s.thisClass)), (5, some (u2Item s.superClass)),
    (6, some (listItem u2Item s.interfaces)), (7, some (listItem Constant.toItem s.constants)),
    (8, some (listItem Member.toItem s.fields)), (9, some (listItem Member.toItem s.methods))]

def encode (s : Snapshot) : Bytes := s.toItem.encode

def Constant.ofItem (item : Item) : Option Constant := do
  let f ← item.fields?
  return { index := ← (Cbor.field f 1).u2?, tag := ← (Cbor.field f 2).u1?,
           text := (← (Cbor.field f 3).bytes?).getD [],
           a := ← (Cbor.field f 4).u2?, b := ← (Cbor.field f 5).u2? }

def Code.ofItem (item : Item) : Option Code := do
  let f ← item.fields?
  return { maxStack := ← (Cbor.field f 1).u2?, maxLocals := ← (Cbor.field f 2).u2?,
           bytes := ← (Cbor.field f 3).bytes? }

/-- The code of a member; there is none where the item is null, and no tag stands on it. -/
def Code.ofItem? (item : Item) : Option (Option Code) :=
  if item.isNull then some none else (Code.ofItem item).map some

def Member.ofItem (item : Item) : Option Member := do
  let f ← item.fields?
  return { flags := ← (Cbor.field f 1).u2?, nameIndex := ← (Cbor.field f 2).u2?,
           descriptorIndex := ← (Cbor.field f 3).u2?, code := ← Code.ofItem? (Cbor.field f 4) }

def ofItem (item : Item) : Option Snapshot := do
  let f ← item.fields?
  return { minor := ← (Cbor.field f 1).u2?, major := ← (Cbor.field f 2).u2?,
           flags := ← (Cbor.field f 3).u2?, thisClass := ← (Cbor.field f 4).u2?,
           superClass := ← (Cbor.field f 5).u2?,
           interfaces := ← (Cbor.field f 6).list? Item.u2?,
           constants := ← (Cbor.field f 7).list? Constant.ofItem,
           fields := ← (Cbor.field f 8).list? Member.ofItem,
           methods := ← (Cbor.field f 9).list? Member.ofItem }

def decode (b : Bytes) : Option Snapshot := do ofItem (← Cbor.decode b)

/-- A library that writes snapshots as bytes and reads them. Both can fail, with a text. -/
structure Codec where
  marshal : Snapshot → Except Bytes Bytes
  unmarshal : Bytes → Except Bytes Snapshot

namespace Codec

def encode (k : Codec) (s : Snapshot) : Except Bytes Bytes := k.marshal s

def decode (k : Codec) (b : Bytes) : Except Bytes Snapshot :=
  match k.unmarshal b with
  | .ok s => .ok s
  | .error e => .error (utf8 "classfile: unmarshal snapshot: " ++ e)

end Codec

def cbor : Codec where
  marshal s := .ok s.encode
  unmarshal b :=
    match Snapshot.decode b with
    | some s => .ok s
    | none => .error (utf8 "cbor: not a snapshot")

end Snapshot

end ClassMachine
