import ClassMachine.ClassPath
import ClassMachine.Cli.Flags
import ClassMachine.Config
import ClassMachine.Machine.Session
import ClassMachine.Snapshot.Codec

/-!
The command: it loads a class, and then runs a method of it, lists the method's code, or writes a
snapshot of the class.
-/

namespace ClassMachine.Cli

open Files (FileSystem)

structure Outcome where
  exit : Nat := 0
  output : Bytes := []
  errors : Bytes := []
  /-- What is reported, and the file for it; without one it goes to the errors. -/
  log : List Log.Entry := []
  logPath : Bytes := []

namespace Outcome

def failed (exit : Nat) (message : Bytes) : Outcome :=
  { exit, errors := utf8 "Error: " ++ message ++ utf8 "\n" }

def report (verbosity : Int) (logPath : Bytes) (entries : List Log.Entry) (o : Outcome) : Outcome :=
  { o with log := Log.visible verbosity entries ++ o.log, logPath }

end Outcome

def unlines (lines : List Bytes) : Bytes := lines.flatMap (· ++ utf8 "\n")

def Options.override (o : Options) (c : Config) : Config :=
  { c with
    verbosity := o.verbosity.getD c.verbosity,
    logPath := o.logPath.getD c.logPath,
    maxInstructions := o.maxInstructions.getD c.maxInstructions }

def runEntry (c : Config) (o : Options) (file : ClassFile) : Outcome :=
  let options : Machine.Options :=
    { limits := c.limits, tracing := Log.allows c.verbosity .debug }
  let store := Registry.standardStore {}
  match Machine.runMethod c.limits.rounds options store file o.entry o.descriptor [] with
  | none => .failed 1 []
  | some report =>
    let outcome := match report.failure with
      | some e => Outcome.failed 1 e.message
      | none => {}
    { outcome with output := unlines report.store.sink.lines }.report c.verbosity c.logPath report.log

def listEntry (o : Options) (file : ClassFile) : Outcome :=
  match file.entry o.entry o.descriptor with
  | none => .failed 1 (utf8 "method " ++ o.entry ++ o.descriptor ++ utf8 " not found")
  | some method =>
    match method.code? with
    | none => .failed 1 (utf8 "method " ++ method.text file.pool ++ utf8 " has no Code attribute")
    | some code =>
      let title := method.text file.pool ++
        utf8 s!" (max_stack={code.maxStack}, max_locals={code.maxLocals})"
      let (lines, stopped) := Machine.disassemble file.pool code.bytes
      let outcome := match stopped with
        | some cause => Outcome.failed 1 cause.message
        | none => {}
      { outcome with output := unlines (title :: lines) }

section

variable {m : Type → Type} [Monad m]

/-- Loads the class that an argument names: a class file by its path, or a class by its name. -/
def loadClass (fs : FileSystem m) (c : Config) (o : Options) (arg : Bytes) :
    m (Except ClassPath.Error LoadedClass) := do
  if arg.endsWith ClassPath.classEnding then ClassPath.readClass fs c.major arg
  else
    let cp : ClassPath := { entries := ClassPath.entriesOf o.classPath, major := c.major }
    let name := arg.map fun b => if b = 46 then Files.slash else b
    return (← cp.load (ClassPath.supply fs) name).1

def act (fs : FileSystem m) (c : Config) (o : Options) (file : ClassFile) : m Outcome := do
  if o.dump ≠ [] then
    match Snapshot.cbor.encode (Snapshot.of file) with
    | .error message => return .failed 1 message
    | .ok data =>
      match ← fs.writeFile o.dump data with
      | .error e => return .failed 1 e.message
      | .ok () => return {}
  else if o.disassemble then return listEntry o file
  else return runEntry c o file

def openLog (fs : FileSystem m) (c : Config) : m (Except Files.PathError Unit) :=
  if c.logPath ≠ [] ∧ -4 < c.verbosity then fs.touch c.logPath else return .ok ()

def execute (fs : FileSystem m) (c : Config) (o : Options) (arg : Bytes) : m Outcome := do
  match ← openLog fs c with
  | .error e => return { exit := 1, errors := utf8 "log file error: " ++ e.message ++ utf8 "\n" }
  | .ok () =>
    match ← loadClass fs c o arg with
    | .error e => return .failed 1 e.message
    | .ok loaded =>
      let outcome ← act fs c o loaded.file
      return outcome.report c.verbosity c.logPath (loaded.diagnostics.map Log.ofDiagnostic)

def configure (fs : FileSystem m) (o : Options) : m (Except Bytes Config) := do
  let loaded ←
    if o.config = [] then pure (.ok {})
    else do pure ((← Config.load fs o.config).mapError Config.LoadError.message)
  return do
    let c ← loaded
    ((o.override c).validate).mapError Config.Error.message

def command (fs : FileSystem m) (args : List Bytes) : m Outcome := do
  match readFlags {} args with
  | .error e => return { exit := if e = .help then 0 else 2, errors := e.message ++ usage }
  | .ok (o, [arg]) =>
    match ← configure fs o with
    | .error message => return .failed 2 message
    | .ok c => execute fs c o arg
  | .ok _ => return { exit := 2, errors := usage }

end

end ClassMachine.Cli
