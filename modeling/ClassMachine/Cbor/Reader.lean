import ClassMachine.Cbor.Item

/-!
Reading of data items. Numbers need not be in the shortest form, and a string, an array or a map
may be ended by a break instead of being counted. Arrays and maps are nested at most 32 deep, where
each tag that stands on another counts too, and hold at most 131072 elements or pairs.
-/

namespace ClassMachine.Cbor
open Bytes (bigEndian ofBigEndian)

/-- What stands in front of an item: the major type, how the number is given, and the number. -/
structure Head where
  major : Nat
  info : Nat
  number : Nat

/-- A length of 31 says that a break ends the item. -/
def Head.indefinite (h : Head) : Bool := h.info == 31

abbrev Reader (α : Type) := Bytes → Option (α × Bytes)

def takeBytes : Nat → Reader Bytes
  | 0, b => some ([], b)
  | _ + 1, [] => none
  | n + 1, x :: b => (takeBytes n b).map fun (taken, rest) => (x :: taken, rest)

/-- Reads the head of an item. Of the major types 0, 1 and 6, none is ended by a break. -/
def readHead : Reader Head
  | [] => none
  | x :: b =>
    let major := x.toNat / 32
    let info := x.toNat % 32
    if info < 24 then some (⟨major, info, info⟩, b)
    else if info < 28 then
      (takeBytes (Nat.pow 2 (info - 24)) b).map fun (n, rest) => (⟨major, info, ofBigEndian n⟩, rest)
    else if info = 31 ∧ major ≠ 0 ∧ major ≠ 1 ∧ major ≠ 6 then some (⟨major, info, 0⟩, b)
    else none

def breakByte : UInt8 := 255

def readCounted (read : Reader Item) : Nat → Reader (List Item)
  | 0, b => some ([], b)
  | n + 1, b => do
    let (item, b) ← read b
    let (items, b) ← readCounted read n b
    return (item :: items, b)

def readToBreak (read : Reader Item) : Nat → Reader (List Item)
  | 0, b => if b.head? = some breakByte then some ([], b.tail) else none
  | n + 1, b =>
    if b.head? = some breakByte then some ([], b.tail)
    else do
      let (item, b) ← read b
      let (items, b) ← readToBreak read n b
      return (item :: items, b)

def maxElements : Nat := 131072

/-- Reads the pieces of a string up to a break: each is a string of the same type, with its length
given. `n` bounds their number. -/
def readPieces (major : Nat) : Nat → Reader (List Bytes)
  | 0, _ => none
  | n + 1, b =>
    if b.head? = some breakByte then some ([], b.tail)
    else do
      let (h, b) ← readHead b
      if h.major = major ∧ ¬ h.indefinite then
        let (piece, b) ← takeBytes h.number b
        let (pieces, b) ← readPieces major n b
        return (piece :: pieces, b)
      else none

def readString (h : Head) (b : Bytes) : Option (List Bytes × Bytes) :=
  if h.indefinite then readPieces h.major (b.length + 1) b
  else (takeBytes h.number b).map fun (piece, b) => ([piece], b)

/-- Reads the elements of an array, or the keys and values of a map, after its head; `width` is the
number of items that an element consists of. -/
def readElements (read : Reader Item) (h : Head) (width : Nat) (b : Bytes) :
    Option (List Item × Bytes) :=
  if h.indefinite then do
    let (items, b) ← readToBreak read (maxElements * width + (width - 1)) b
    if items.length % width = 0 then some (items, b) else none
  else if h.number ≤ maxElements then readCounted read (h.number * width) b
  else none

/-- Reads a simple value or a floating-point number after its head. A value below 32 is given in the
first byte, and a break stands for no value. -/
def readSimple (h : Head) (b : Bytes) : Option (Item × Bytes) :=
  if h.info < 24 then some (.simple h.number, b)
  else if h.info = 24 then if h.number < 32 then none else some (.simple h.number, b)
  else if h.info < 28 then some (.float (bigEndian (Nat.pow 2 (h.info - 24)) h.number), b)
  else none

def readContent (read : Reader Item) (number : Nat) (b : Bytes) : Option (Item × Bytes) :=
  (read b).map fun (content, b) => (.tag number content, b)

/-- Reads an item, of which the first tag does not count as a level. -/
def readItem (content : Reader Item) : Reader Item := fun b =>
  match readHead b with
  | some (h, rest) => if h.major = 6 then readContent content h.number rest else content b
  | none => none

/-- Reads an item with at most `levels` levels, each tag included. -/
def readNested (levels : Nat) : Reader Item := fun b => do
  let (h, b) ← readHead b
  match h.major with
  | 0 => return (.uint h.number, b)
  | 1 => return (.nint h.number, b)
  | 2 => (readString h b).map fun (pieces, b) => (.bytes pieces.flatten, b)
  | 3 => (readString h b).map fun (pieces, b) => (.text pieces, b)
  | 7 => readSimple h b
  | major =>
    match levels with
    | 0 => none
    | levels + 1 =>
      match major with
      | 4 => (readElements (readItem (readNested levels)) h 1 b).map fun (items, b) => (.array items, b)
      | 5 => (readElements (readItem (readNested levels)) h 2 b).map fun (items, b) => (.map items, b)
      | _ => readContent (readNested levels) h.number b

def maxLevels : Nat := 32

def decode (b : Bytes) : Option Item :=
  match readItem (readNested maxLevels) b with
  | some (item, []) => some item
  | _ => none

end ClassMachine.Cbor
