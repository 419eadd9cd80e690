import ClassMachine.ClassFile.Basic
import ClassMachine.Stream

/-!
Reading class files. The parts are read in file order, and an error names the steps that led to
it. Code attributes hold attributes in turn, so the attributes are read to a given depth;
`parse` allows more levels than the input has room for.
-/

namespace ClassMachine.ClassFile

/-- The steps that class files are read by, in any monad. Items are put into an array with `room`
places, from place `i` on. -/
class Reading (m : Type → Type) where
  u1 (part : String) : m UInt8
  u2 (part : String) : m UInt16
  u4 (part : String) : m UInt32
  bytes (activity : Activity) (part : String) (n : Nat) : m Bytes
  text (part : String) (pool : Pool) (index : UInt16) : m Bytes
  offset : m Nat
  diagnose (d : Diagnostic) : m Unit
  refuse {α : Type} (e : Error) : m α
  tooDeep {α : Type} : m α
  during {α : Type} (activity : Activity) (part : String) (p : m α) : m α
  /-- Reads from a payload that starts at `start`; the outer position stays. -/
  inside {α : Type} (payload : Bytes) (start : Nat) (p : m α) : m α
  items {α : Type} (room : Nat) (item : Nat → m α) (n i : Nat) : m (List α)
  /-- Notes bytes that are left over. Looking for one consumes it, so the offset is one past it. -/
  trailing : m Unit

namespace Parser
open Reading
variable {m : Type → Type} [Monad m] [Reading m]

def constantOf (i : Nat) (kind : Kind) : m Constant := do
  if kind = .utf8 then
    let length ← u2 s!"Utf8 length at index {i}"
    let bytes ← bytes .reading s!"Utf8 bytes at index {i}" length.toNat
    pure (.utf8 bytes)
  else
    let a ← u2 s!"{kind.name} at index {i}"
    if kind = .cls then pure (.cls a)
    else if kind = .string then pure (.string a)
    else
      let b ← u2 s!"{kind.name} at index {i}"
      if kind = .fieldref then pure (.ref .field a b)
      else if kind = .methodref then pure (.ref .method a b)
      else if kind = .interfaceMethodref then pure (.ref .interfaceMethod a b)
      else pure (.nameAndType a b)

def constant (i : Nat) : m Constant := do
  let tag ← u1 s!"constant pool tag at index {i}"
  if Kind.recognized ⟨tag⟩ = false then refuse (.unknownTag i tag)
  else if Kind.supported ⟨tag⟩ = false then refuse (.unsupportedConstant i ⟨tag⟩)
  else constantOf i ⟨tag⟩

/-- A pool that declares `count`: its entries have the indices from 1 up to `count - 1`. -/
def pool (count : UInt16) : m Pool := do
  let entries ← items count.toNat constant (count.toNat - 1) 1
  pure { count, entries }

def code (attributes : m (List Attribute)) (nameIndex : UInt16) (payload : Bytes) (start : Nat) :
    m Attribute := do
  let maxStack ← u2 "max_stack"
  let maxLocals ← u2 "max_locals"
  let codeLength ← u4 "code_length"
  if payload.length < codeLength.toNat then
    let stop ← offset
    refuse (.codeTooLong stop codeLength payload.length)
  else
    let code ← bytes .reading "code" codeLength.toNat
    let exceptions ← u2 "exception table length"
    let _ ← bytes .skipping "exception table" (exceptions.toNat * 8)
    let nested ← during .parsing "Code attributes" attributes
    let stop ← offset
    if stop - start = payload.length then
      pure (.code nameIndex maxStack maxLocals code nested)
    else
      refuse (.lengthMismatch stop payload.length (stop - start))

def oneAttribute (nested : m (List Attribute)) (pool : Pool) (i : Nat) : m Attribute := do
  let nameIndex ← u2 s!"attribute {i} name index"
  let length ← u4 s!"attribute {i} length"
  let start ← offset
  let payload ← bytes .reading s!"attribute {i} data" length.toNat
  let name ← text s!"attribute {i} name" pool nameIndex
  if name = utf8 "Code" then
    during .parsing "Code attribute" (inside payload start (code nested nameIndex payload start))
  else
    diagnose (.unhandledAttribute start name length)
    pure (.other nameIndex name payload)

/-- A list of attributes, in which Code attributes are nested less than `depth` levels deep. -/
def attributes (pool : Pool) : Nat → m (List Attribute)
  | 0 => tooDeep
  | depth + 1 => do
    let count ← u2 "attributes count"
    items count.toNat (oneAttribute (attributes pool depth) pool) count.toNat 0

def member (pool : Pool) (depth : Nat) : m Member := do
  let flags ← u2 "access flags"
  let nameIndex ← u2 "name index"
  let descriptorIndex ← u2 "descriptor index"
  let attributes ← during .parsing "attributes" (attributes pool depth)
  pure { flags := ⟨flags⟩, nameIndex, descriptorIndex, attributes }

def header (want : UInt16) : m (UInt16 × UInt16) := do
  let found ← u4 "magic number"
  if found ≠ magic then refuse (.badMagic found)
  else
    let minor ← u2 "minor version"
    let major ← u2 "major version"
    if major ≠ want then refuse (.unsupportedVersion major minor want)
    else pure (minor, major)

def body (want : UInt16) (depth : Nat) : m ClassFile := do
  let (minor, major) ← header want
  let count ← u2 "constant pool count"
  let pool ← during .parsing "constant pool" (pool count)
  let flags ← u2 "access flags"
  let thisClass ← u2 "this_class"
  let superClass ← u2 "super_class"
  let interfacesCount ← u2 "interfaces count"
  let interfaces ← items interfacesCount.toNat (fun i => u2 s!"interface {i}")
    interfacesCount.toNat 0
  let fieldsCount ← u2 "fields count"
  let fields ← items fieldsCount.toNat
    (fun i => during .parsing s!"field {i}" (member pool depth)) fieldsCount.toNat 0
  let methodsCount ← u2 "methods count"
  let methods ← items methodsCount.toNat
    (fun i => during .parsing s!"method {i}" (member pool depth)) methodsCount.toNat 0
  let attributes ← during .parsing "class attributes" (attributes pool depth)
  pure { minor, major, pool, flags := ⟨flags⟩, thisClass, superClass, interfaces, fields, methods,
         attributes }

def classFile (want : UInt16) (depth : Nat) : m ClassFile := do
  let c ← body want depth
  trailing
  pure c

end Parser

structure Scan where
  cursor : Cursor
  diagnostics : List Diagnostic := []

abbrev Parser := EStateM Error Scan

namespace Parser

def field {α : Type} (activity : Activity) (part : String) (r : Reader α) : Parser α := fun s =>
  match r s.cursor with
  | .ok a c => .ok a { s with cursor := c }
  | .error t c => .error (.during activity part (.truncated t)) { s with cursor := c }

def resolve {α : Type} (part : String) : Except Error α → Parser α
  | .ok a => pure a
  | .error e => throw (.during .resolving part e)

end Parser

/-- The items from number `i` on, one after the other. -/
def inTurn {m : Type → Type} [Monad m] {α : Type} (item : Nat → m α) : Nat → Nat → m (List α)
  | 0, _ => pure []
  | n + 1, i => do
    let a ← item i
    let rest ← inTurn item n (i + 1)
    pure (a :: rest)

instance : Reading Parser where
  u1 part := Parser.field .reading part Cursor.u1
  u2 part := Parser.field .reading part Cursor.u2
  u4 part := Parser.field .reading part Cursor.u4
  bytes activity part n := Parser.field activity part (Cursor.take n)
  text part pool index := Parser.resolve part (pool.text index)
  offset := fun s => .ok s.cursor.offset s
  diagnose d := fun s => .ok () { s with diagnostics := s.diagnostics ++ [d] }
  refuse e := throw e
  tooDeep := throw .tooDeep
  during activity part p := fun s =>
    match p s with
    | .ok a s => .ok a s
    | .error e s => .error (.during activity part e) s
  inside payload start p := fun s =>
    match p { s with cursor := ⟨payload, start⟩ } with
    | .ok a t => .ok a { s with diagnostics := t.diagnostics }
    | .error e t => .error e { s with diagnostics := t.diagnostics }
  items _ item n i := inTurn item n i
  trailing := fun s =>
    match s.cursor.rest with
    | [] => .ok () s
    | _ :: rest => .ok () ⟨⟨rest, s.cursor.offset + 1⟩,
        s.diagnostics ++ [.trailingData (s.cursor.offset + 1)]⟩

/-- The levels of attributes that `n` bytes can hold: a Code attribute needs eighteen bytes beside
the attributes inside it. -/
def depthFor (n : Nat) : Nat := n / 18 + 2

/-- Reads a class file of the wanted major version, with attributes to a given depth. The anomalies
are those seen up to the end, or up to the error. -/
def parseTo (depth : Nat) (want : UInt16) (data : Bytes) :
    Except Error ClassFile × List Diagnostic :=
  match (Parser.classFile want depth : Parser ClassFile) { cursor := ⟨data, 0⟩ } with
  | .ok c s => (.ok c, s.diagnostics)
  | .error e s => (.error e.classify, s.diagnostics)

def parse (want : UInt16) (data : Bytes) : Except Error ClassFile × List Diagnostic :=
  parseTo (depthFor data.length) want data

/-- Reads a class file from a stream. The first read that goes over the sure bytes gets those that
arrive, and there the file ends. -/
def parseStream (want : UInt16) (s : Stream) : Except Error ClassFile × List Diagnostic :=
  let attempt := parse want (s.data.take s.sure)
  match attempt.1 with
  | .ok _ => attempt
  | .error e =>
    match e.shortRead? with
    | some t => parse want (s.data.take (t.offset + s.arriving t.offset t.need))
    | none => attempt

end ClassMachine.ClassFile
