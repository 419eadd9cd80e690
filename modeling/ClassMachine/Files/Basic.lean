import ClassMachine.Files.Path

/-!
What the program asks of a file system, and how that can fail. `FileSystem m` is a file system whose
operations run in `m`.
-/

namespace ClassMachine.Files

inductive Fault
  | missing
  | notDirectory
  | isDirectory
  | invalid
  | nameTooLong
  | other (text : Bytes)
deriving DecidableEq

def Fault.message : Fault → Bytes
  | .missing => utf8 "no such file or directory"
  | .notDirectory => utf8 "not a directory"
  | .isDirectory => utf8 "is a directory"
  | .invalid => utf8 "invalid argument"
  | .nameTooLong => utf8 "file name too long"
  | .other text => text

structure PathError where
  action : String
  path : Bytes
  fault : Fault
deriving DecidableEq

def PathError.message (e : PathError) : Bytes :=
  utf8 e.action ++ utf8 " " ++ e.path ++ utf8 ": " ++ e.fault.message

inductive Content
  | file (data : Bytes)
  | directory
deriving DecidableEq

structure FileSystem (m : Type → Type) where
  look : Bytes → m (Except Fault Content)
  write : Bytes → Bytes → m (Except Fault Unit)

namespace FileSystem

variable {m : Type → Type} [Monad m]

def readFile (fs : FileSystem m) (path : Bytes) : m (Except PathError Bytes) := do
  match ← fs.look path with
  | .error fault => return .error ⟨"open", path, fault⟩
  | .ok .directory => return .error ⟨"read", path, .isDirectory⟩
  | .ok (.file data) => return .ok data

/-- The bytes of a file that is read as a stream: from a directory none come. -/
def readStream (fs : FileSystem m) (path : Bytes) : m (Except PathError Bytes) := do
  match ← fs.look path with
  | .error fault => return .error ⟨"open", path, fault⟩
  | .ok .directory => return .ok []
  | .ok (.file data) => return .ok data

def writeFile (fs : FileSystem m) (path data : Bytes) : m (Except PathError Unit) := do
  match ← fs.write path data with
  | .error fault => return .error ⟨"open", path, fault⟩
  | .ok () => return .ok ()

def touch (fs : FileSystem m) (path : Bytes) : m (Except PathError Unit) := do
  match ← fs.look path with
  | .ok (.file _) => return .ok ()
  | _ => fs.writeFile path []

end FileSystem

end ClassMachine.Files
