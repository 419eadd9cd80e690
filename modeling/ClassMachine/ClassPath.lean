import ClassMachine.Archive.Zip
import ClassMachine.ClassFile.Parser
import ClassMachine.Files.Basic
import ClassMachine.Library.Error
import ClassMachine.Text.Quoted

/-!
The class path: a list of directories and archives that classes are looked for in, in order. What
an entry has for a name is a `Supply`; `ClassPath.load` takes the first supply that is not absent,
and keeps each class that it has loaded.
-/

namespace ClassMachine

structure LoadedClass where
  file : ClassFile
  diagnostics : List Diagnostic

namespace ClassPath

inductive Error
  | path (cause : Files.PathError)
  | member (cause : Archive.Error)
  | unopened (archive : Bytes) (cause : Files.PathError)
  | notArchive (archive : Bytes) (cause : Archive.Error)
  /-- A file that was asked for by its path is no class file. -/
  | malformed (cause : ClassFile.Error)
  | badClass (place : Bytes) (cause : ClassFile.Error)
  | wrongName (name entry declared : Bytes)
  | notFound (name : Bytes)
deriving DecidableEq

def Error.message : Error → Bytes
  | .path e => e.message
  | .member e => e.message
  | .unopened archive e => utf8 "classpath: opening " ++ archive ++ utf8 ": " ++ e.message
  | .notArchive archive e => utf8 "classpath: opening " ++ archive ++ utf8 ": " ++ e.message
  | .malformed e => e.message
  | .badClass place e => utf8 "classpath: parsing " ++ place ++ utf8 ": " ++ e.message
  | .wrongName name entry declared =>
    utf8 "classpath: " ++ name ++ utf8 " in " ++ entry ++ utf8 " declares class " ++
      Text.quote declared
  | .notFound name => (Library.Error.classNotFound name).message

inductive Supply
  | absent
  | failed (cause : Error)
  | found (place : Bytes) (data : Stream)

def classEnding : Bytes := utf8 ".class"

/-- The entries of a class path, separated by colons; empty ones are left out. -/
def entriesOf (text : Bytes) : List Bytes := (Bytes.splitOn 58 text).filter (· ≠ [])

def isArchive (entry : Bytes) : Bool := entry.endsWith (utf8 ".jar")

section Supplies

variable {m : Type → Type} [Monad m]

def supplyOfDirectory (fs : Files.FileSystem m) (dir name : Bytes) : m Supply := do
  let path := Files.join dir (name ++ classEnding)
  match ← fs.look path with
  | .error .missing => return .absent
  | .error fault => return .failed (.path ⟨"stat", path, fault⟩)
  | .ok (.file data) => return .found path { data }
  | .ok .directory => return .found path { data := [] }

def supplyOfZip (zip : Archive.Zip) (archive name : Bytes) : Supply :=
  let path := name ++ classEnding
  if ¬ Archive.Zip.isPath path then .failed (.path ⟨"open", path, .invalid⟩)
  else match zip.look path with
    | none => .absent
    | some (.error .negativeOffset) =>
      .failed (.path ⟨"readat", archive, .other Archive.Error.negativeOffset.message⟩)
    | some (.error .badOffset) => .failed (.path ⟨"read", archive, .invalid⟩)
    | some (.error e) => .failed (.member e)
    | some (.ok data) => .found (archive ++ utf8 "!" ++ path) data

def supplyOfArchive (fs : Files.FileSystem m) (archive name : Bytes) : m Supply := do
  match ← fs.readFile archive with
  | .error e => return if e.fault = .missing then .absent else .failed (.unopened archive e)
  | .ok data =>
    match Archive.Zip.parse data with
    | .error .badOffset => return .failed (.unopened archive ⟨"read", archive, .invalid⟩)
    | .error e => return .failed (.notArchive archive e)
    | .ok zip => return supplyOfZip zip archive name

def supply (fs : Files.FileSystem m) (entry name : Bytes) : m Supply :=
  if isArchive entry then supplyOfArchive fs entry name else supplyOfDirectory fs entry name

end Supplies

/-- The class in the bytes that an entry has for a name. It has to bear that name. -/
def accept (major : UInt16) (entry name place : Bytes) (data : Stream) :
    Except Error LoadedClass :=
  match ClassFile.parseStream major data with
  | (.error e, _) => .error (.badClass place e)
  | (.ok file, diagnostics) =>
    match file.className with
    | .ok declared =>
      if declared = name then .ok { file, diagnostics }
      else .error (.wrongName name entry declared)
    | .error _ => .error (.wrongName name entry [])

def search {m : Type → Type} [Monad m] (major : UInt16) (supply : Bytes → Bytes → m Supply)
    (name : Bytes) : List Bytes → m (Except Error LoadedClass)
  | [] => return .error (.notFound name)
  | entry :: rest => do
    match ← supply entry name with
    | .absent => search major supply name rest
    | .failed e => return .error e
    | .found place data => return accept major entry name place data

end ClassPath

structure ClassPath where
  entries : List Bytes
  major : UInt16
  loaded : Table Bytes LoadedClass := {}

namespace ClassPath

/-- Loads a class. What was loaded before is not looked for again. -/
def load {m : Type → Type} [Monad m] (supply : Bytes → Bytes → m Supply) (cp : ClassPath)
    (name : Bytes) : m (Except Error LoadedClass × ClassPath) := do
  match cp.loaded.get? name with
  | some c => return (.ok c, cp)
  | none =>
    match ← search cp.major supply name cp.entries with
    | .error e => return (.error e, cp)
    | .ok c => return (.ok c, { cp with loaded := cp.loaded.set name c })

def readClass {m : Type → Type} [Monad m] (fs : Files.FileSystem m) (major : UInt16)
    (path : Bytes) : m (Except Error LoadedClass) := do
  match ← fs.readStream path with
  | .error e => return .error (.path e)
  | .ok data =>
    match ClassFile.parse major data with
    | (.error e, _) => return .error (.malformed e)
    | (.ok file, diagnostics) => return .ok { file, diagnostics }

end ClassPath

end ClassMachine
