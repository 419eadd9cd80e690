import ClassMachine.Archive.Inflate
import ClassMachine.Files.Path
import ClassMachine.Table
import ClassMachine.Text.Utf8

/-!
Zip archives. The directory at the end lists the members; a record at the very end, which a comment
may follow, says where the directory is and how many members it has. Numbers that do not fit their
fields are in wide records: one for the directory, and one for each member that needs it.
-/

namespace ClassMachine.Archive

inductive Error
  | notZip
  | unexpectedEnd
  | atEnd
  | unsupported
  | negativeOffset
  | badOffset
deriving DecidableEq

def Error.message : Error → Bytes
  | .notZip => utf8 "zip: not a valid zip file"
  | .unexpectedEnd => utf8 "unexpected EOF"
  | .atEnd => utf8 "EOF"
  | .unsupported => utf8 "zip: unsupported compression algorithm"
  | .negativeOffset => utf8 "negative offset"
  | .badOffset => utf8 "invalid argument"

def little : Bytes → Nat
  | [] => 0
  | b :: rest => b.toNat + 256 * little rest

def littleAt (data : Bytes) (offset width : Nat) : Nat := little ((data.drop offset).take width)

structure Member where
  name : Bytes
  method : Nat
  compressedSize : Nat
  size : Nat
  /-- Where the member starts, from the start of the archive's first member. -/
  offset : Int

def Member.isDirectory (m : Member) : Bool := m.name.getLast? == some Files.slash

def takeFull (n : Nat) (data : Bytes) : Except Error Bytes :=
  if n ≤ data.length then .ok (data.take n)
  else if data = [] then .error .atEnd
  else .error .unexpectedEnd

def readAt (data : Bytes) (place : Int) (n : Nat) : Except Error Bytes :=
  if place < 0 then .error .negativeOffset
  else if Nat.pow 2 63 ≤ place + n then .error .badOffset
  else if place + n ≤ data.length then .ok ((data.drop place.toNat).take n)
  else .error .atEnd

def endLength : Nat := 22

def isEnd (data : Bytes) : Bool := data.take 4 == [0x50, 0x4B, 0x05, 0x06]

/-- The offset of the last record for the end; `here` is the offset of the data. -/
def lastEnd (here : Nat) (found : Option Nat) : Bytes → Option Nat
  | [] => found
  | b :: rest => lastEnd (here + 1) (if isEnd (b :: rest) then some here else found) rest

def searchLength : Nat := 65 * 1024

/-- The offset of the record for the end. It has to be whole, the comment included. -/
def findEnd (data : Bytes) : Except Error Nat :=
  let skipped := data.length - searchLength
  let searched := (data.drop skipped).take (data.length - skipped - (endLength - 4))
  if data.length < endLength then .error .notZip
  else match lastEnd skipped none searched with
    | none => .error .notZip
    | some here =>
      if here + endLength + littleAt data (here + 20) 2 ≤ data.length then .ok here
      else .error .notZip

/-- The payloads of the extra records with a tag, of `n` records at most. Each has its tag, its length
and its payload; one that is cut off is the end. -/
def extras (tag : Nat) : Nat → Bytes → List Bytes
  | 0, _ => []
  | n + 1, extra =>
    let length := littleAt extra 2 2
    if extra.length < 4 + length then []
    else
      let more := extras tag n (extra.drop (4 + length))
      if littleAt extra 0 2 = tag then (extra.drop 4).take length :: more else more

def wideTag : Nat := 1

/-- The largest number in a field of four bytes; it says that the number is in the wide record. -/
def fieldLimit : Nat := 0xFFFFFFFF

def takeWide (needed : Bool) (record : Bytes) : Except Error (Option Nat × Bytes) :=
  if ¬ needed then .ok (none, record)
  else if record.length < 8 then .error .notZip
  else .ok (some (littleAt record 0 8), record.drop 8)

/-- A member as a wide record has it. Each record has the sizes that the directory lists as too large,
and the offset as long as it is too large. -/
def Member.widen (listed m : Member) (record : Bytes) : Except Error Member := do
  let (size, record) ← takeWide (listed.size = fieldLimit) record
  let (compressedSize, record) ← takeWide (listed.compressedSize = fieldLimit) record
  let (offset, _) ← takeWide (m.offset = fieldLimit) record
  return { m with
    size := size.getD m.size
    compressedSize := compressedSize.getD m.compressedSize
    offset := (offset.map fun n => Int.bmod n (Nat.pow 2 64)).getD m.offset }

/-- Reads a member of the directory, with its wide records one after the other. Without one, the
numbers are as the directory lists them. -/
def readMember (data : Bytes) : Except Error (Member × Bytes) := do
  let head ← takeFull 46 data
  if head.take 4 ≠ [0x50, 0x4B, 0x01, 0x02] then throw .notZip
  let nameLength := littleAt head 28 2
  let extraLength := littleAt head 30 2
  let rest := data.drop 46
  let total := nameLength + extraLength + littleAt head 32 2
  let texts ← takeFull total rest
  let extra := (texts.drop nameLength).take extraLength
  let listed : Member :=
    { name := texts.take nameLength, method := littleAt head 10 2
      compressedSize := littleAt head 20 4, size := littleAt head 24 4, offset := littleAt head 42 4 }
  let m ← (extras wideTag extra.length extra).foldlM listed.widen listed
  return (m, rest.drop total)

/-- Reads the members of the directory, at most `n` of them, up to the first that is none. -/
def readMembers : Nat → Bytes → List Member × Error
  | 0, _ => ([], .notZip)
  | n + 1, data =>
    match readMember data with
    | .error e => ([], e)
    | .ok (m, rest) =>
      let (more, e) := readMembers n rest
      (m :: more, e)

structure Directory where
  place : Nat
  members : Nat
  size : Nat
  offset : Nat

/-- The directory as its wide record has it. That is found by a locator in front of the record for the
end; without one the record for the end counts. -/
def Directory.widen (d : Directory) (data : Bytes) : Except Error Directory := do
  let locator := (data.drop (d.place - 20)).take 20
  let place := littleAt locator 8 8
  if d.place < 20 ∨ locator.take 4 ≠ [0x50, 0x4B, 0x06, 0x07] ∨ littleAt locator 4 4 ≠ 0 ∨
      littleAt locator 16 4 ≠ 1 ∨ Nat.pow 2 63 ≤ place then return d
  let record ← readAt data place 56
  if record.take 4 ≠ [0x50, 0x4B, 0x06, 0x06] then throw .notZip
  return { place, members := littleAt record 32 8, size := littleAt record 40 8,
           offset := littleAt record 48 8 }

/-- The directory of an archive. Its wide record is looked for if the number of members, the size or
the offset is the largest that its field can hold. -/
def readDirectory (data : Bytes) : Except Error Directory := do
  let place ← findEnd data
  let d : Directory :=
    { place, members := littleAt data (place + 10) 2, size := littleAt data (place + 12) 4,
      offset := littleAt data (place + 16) 4 }
  if d.members = 0xFFFF ∨ d.size = fieldLimit ∨ d.offset = fieldLimit then d.widen data else return d

structure Zip where
  data : Bytes
  base : Int := 0
  members : List Member

namespace Zip

/-- Reads the directory of an archive. Of the number of members, 16 bits are checked. -/
def parse (data : Bytes) : Except Error Zip := do
  let d ← readDirectory data
  if Nat.pow 2 63 ≤ d.size ∨ Nat.pow 2 63 ≤ d.offset then throw .notZip
  let base : Int := (d.place : Int) - d.size - d.offset
  if base + d.offset < 0 ∨ data.length ≤ base + d.offset then throw .notZip
  let base := if 0 < base ∧ (readMember (data.drop d.offset)).isOk then 0 else base
  let (members, e) := readMembers data.length (data.drop (base + d.offset).toNat)
  if e = .atEnd then throw e
  if members.length % 65536 ≠ d.members % 65536 then throw e
  return { data, base, members }

def pathOf (name : Bytes) : Bytes :=
  let path := Files.clean (name.map fun b => if b = 92 then Files.slash else b)
  dropUp path.length (if Files.isRooted path then path.tail else path)
where
  dropUp : Nat → Bytes → Bytes
    | 0, path => path
    | n + 1, path => if utf8 "../" <+: path then dropUp n (path.drop 3) else path

def find? (z : Zip) (path : Bytes) : Option Member :=
  z.members.find? fun m => pathOf m.name == path

def hasInside (z : Zip) (path : Bytes) : Bool :=
  z.members.any fun m => (path ++ [Files.slash]).isPrefixOf (pathOf m.name)

/-- Whether a text is a path: parts between slashes, none of them empty or made of dots only. -/
def isPath (path : Bytes) : Bool :=
  Utf8.valid path && (path == Files.dot ||
    (Bytes.splitOn Files.slash path).all fun part =>
      part ≠ [] && part ≠ Files.dot && part ≠ Files.dotDot)

/-- The bytes of a member, after its own header. A compressed size that is too large, or negative in
64 bits, takes all bytes to the end of the archive. -/
def extract (z : Zip) (m : Member) : Except Error Stream := do
  let start := Int.bmod (z.base + m.offset) (Nat.pow 2 64)
  let header ← readAt z.data start 30
  if header.take 4 ≠ [0x50, 0x4B, 0x03, 0x04] then throw .notZip
  let body := z.data.drop (start.toNat + 30 + littleAt header 26 2 + littleAt header 28 2)
  let data := if m.compressedSize < Nat.pow 2 63 then body.take m.compressedSize else body
  match m.method with
  | 0 =>
    return { data, announced := some m.size,
             ending := if body.length < m.compressedSize then .beyond else .after }
  | 8 => return inflate m.size data
  | _ => throw .unsupported

def look (z : Zip) (path : Bytes) : Option (Except Error Stream) :=
  match z.find? path with
  | some m => some (if m.isDirectory then .ok { data := [] } else z.extract m)
  | none => if z.hasInside path then some (.ok { data := [] }) else none

end Zip

end ClassMachine.Archive
