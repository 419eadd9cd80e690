import ClassMachine.Cli.Command

/-!
The command on the real file system.
-/

namespace ClassMachine.Cli

def textOf (b : Bytes) : Option String := (Utf8.chars? b).map String.ofList

def toArray (b : Bytes) : ByteArray := ⟨b.toArray⟩

def faultOf (e : IO.Error) : Files.Fault :=
  match e with
  | .noFileOrDirectory .. => .missing
  | .inappropriateType _ code _ => if code = 20 then .notDirectory else .isDirectory
  | e => .other (utf8 (toString e))

def lookOnDisk (path : Bytes) : IO (Except Files.Fault Files.Content) := do
  match textOf path with
  | none => return .error .missing
  | some name =>
    try
      let data ← IO.FS.readBinFile name
      return .ok (.file data.toList)
    catch e =>
      match faultOf e with
      | .isDirectory => return .ok .directory
      | fault => return .error fault

def writeOnDisk (path data : Bytes) : IO (Except Files.Fault Unit) := do
  match textOf path with
  | none => return .error .missing
  | some name =>
    try
      IO.FS.writeBinFile name (toArray data)
      return .ok ()
    catch e => return .error (faultOf e)

def disk : Files.FileSystem IO := { look := lookOnDisk, write := writeOnDisk }

def logLine (e : Log.Entry) : Bytes :=
  utf8 s!"{e.level.name} [{e.logger}] " ++ e.message ++
    e.fields.flatMap (fun (k, v) => utf8 s!" {k}={v}") ++ utf8 "\n"

def writeLog (o : Outcome) : IO Unit := do
  let lines := toArray (o.log.flatMap logLine)
  match textOf o.logPath with
  | some "" | none => (← IO.getStderr).write lines
  | some name => IO.FS.withFile name .append fun h => h.write lines

end ClassMachine.Cli

open ClassMachine in
def main (args : List String) : IO UInt32 := do
  let outcome ← Cli.command Cli.disk (args.map utf8)
  (← IO.getStdout).write (Cli.toArray outcome.output)
  Cli.writeLog outcome
  (← IO.getStderr).write (Cli.toArray outcome.errors)
  return UInt32.ofNat outcome.exit
