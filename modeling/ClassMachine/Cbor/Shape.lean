import ClassMachine.Cbor.Item
import ClassMachine.Text.Utf8

/-!
Reading numbers, byte strings, lists and records out of data items. Null stands for the least value
of every shape; a record is a map with numbers for the names of its fields.
-/

namespace ClassMachine.Cbor

def tagFits (number : Nat) (content : Item) : Bool :=
  match number, content with
  | 0, .text _ => true
  | 0, _ => false
  | 1, .uint _ | 1, .nint _ | 1, .float _ => true
  | 1, _ => false
  | 2, .bytes _ | 3, .bytes _ => true
  | 2, _ | 3, _ => false
  | _, _ => true

namespace Item

/-- The content of an item without its tags. Those for large numbers stay. -/
def untagged : Item → Option Item
  | .tag n content =>
    if tagFits n content then
      if n = 2 ∨ n = 3 then some (.tag n content) else content.untagged
    else none
  | item => some item

/-- A number of at most `max`. A simple value other than the truth values and null counts as its
number. -/
def number? (max : Nat) (item : Item) : Option Nat :=
  let bounded n := if n ≤ max then some n else none
  match item.untagged with
  | some (.uint n) => bounded n
  | some (.simple n) => if n = 20 ∨ n = 21 then none else if n = 22 ∨ n = 23 then some 0 else bounded n
  | some (.tag 2 (.bytes b)) => bounded (Bytes.ofBigEndian b)
  | _ => none

def u1? (item : Item) : Option UInt8 := (item.number? 255).map UInt8.ofNat

def u2? (item : Item) : Option UInt16 := (item.number? 65535).map UInt16.ofNat

/-- A byte string; an array of bytes is taken for one too. -/
def bytes? (item : Item) : Option (Option Bytes) :=
  match item.untagged with
  | some (.bytes b) | some (.tag _ (.bytes b)) => some (some b)
  | some (.array items) => (items.mapM u1?).map some
  | some (.simple n) => if n = 22 ∨ n = 23 then some none else none
  | _ => none

def list? {α : Type} (element : Item → Option α) (item : Item) : Option (Option (List α)) :=
  match item.untagged with
  | some (.array items) => (items.mapM element).map some
  | some (.simple n) => if n = 22 ∨ n = 23 then some none else none
  | _ => none

/-- The field that a key names. A number or its decimal form names a field; other numbers and texts
name none, and nothing else is a key. -/
def fieldName : Item → Option (Option Nat)
  | .uint n => some (some n)
  | .nint n => if n < Nat.pow 2 63 then some none else none
  | .text pieces =>
    if pieces.all Utf8.valid then
      match pieces.flatten with
      | [d] => some (if 49 ≤ d ∧ d ≤ 57 then some (d.toNat - 48) else none)
      | _ => some none
    else none
  | _ => none

/-- The fields of a record: the first value of each name. -/
def fieldsFrom : List Item → Option (List (Nat × Item))
  | key :: value :: rest => do
    let name ← key.fieldName
    let fields ← fieldsFrom rest
    match name with
    | some n => return (n, value) :: fields
    | none => return fields
  | _ => some []

def fields? (item : Item) : Option (List (Nat × Item)) :=
  match item.untagged with
  | some (.map items) => fieldsFrom items
  | some (.simple n) => if n = 22 ∨ n = 23 then some [] else none
  | _ => none

end Item

/-- A field of a record; null where it has no such field. -/
def field (fields : List (Nat × Item)) (n : Nat) : Item := (fields.lookup n).getD null

end ClassMachine.Cbor
