import ClassMachine.ClassFile.Parser
import ClassMachine.Library.Standard
import ClassMachine.Log
import ClassMachine.Machine.Run

/-!
Running a method of a class file against the standard library, from the look-up of the method to
the last printed line.
-/

namespace ClassMachine.Machine

inductive Failure
  | link (cause : ClassFile.Error)
  | library (cause : Library.Error)
  | noCode (method : Bytes)
  | stopped (reason : Stop)

def Failure.message : Failure → Bytes
  | .link e => e.message
  | .library e => e.message
  | .noCode method => utf8 "method " ++ method ++ utf8 " has no Code attribute"
  | .stopped reason => reason.message

structure Options where
  limits : Limits := {}
  tracing : Bool := false

def Options.setting (options : Options) (c : ClassFile) : Setting :=
  { program := { pool := c.pool, methods := Registry.standardMethods },
    limits := options.limits, tracing := options.tracing }

structure Report where
  instructions : Nat := 0
  /-- The result; void when the run failed. -/
  value : Value := .void
  failure : Option Failure := none
  store : Store
  log : List Log.Entry := []

structure Entry where
  label : Bytes
  code : Code

/-- Where methods are found in class files. -/
class Entering (look : outParam (Type → Type)) (m : Type → Type) where
  resolve {α : Type} (x : look α) : m α
  search (c : ClassFile) (name descriptor : Bytes) : m (Option Member)

instance : Entering (Except ClassFile.Error) (Except Failure) where
  resolve x := x.mapError .link
  search c name descriptor := .ok (c.entry name descriptor)

/-- Finds the method with the given name, and with the given descriptor unless that is empty. -/
def Entering.find {look m : Type → Type} [Monad look] [LookUp look] [Monad m]
    [MonadExceptOf Failure m] [Entering look m] (c : ClassFile) (name descriptor : Bytes) :
    m Entry := do
  let className ← resolve (LookUp.className c.pool c.thisClass)
  match ← search c name descriptor with
  | none => throwThe Failure (.library (.methodNotFound false className name descriptor))
  | some member =>
    let actual ← resolve (LookUp.text c.pool member.descriptorIndex)
    let label := className ++ utf8 "." ++ name ++ utf8 ":" ++ actual
    match member.code? with
    | none => throwThe Failure (.noCode label)
    | some code => pure { label, code }

def Entry.find (c : ClassFile) (name descriptor : Bytes) : Except Failure Entry :=
  Entering.find c name descriptor

/-- The number of local variables: what the code declares, or the number of arguments if that is
more. The count is kept in 16 bits. -/
def Entry.slots (e : Entry) (arguments : Nat) : Nat :=
  if e.code.maxLocals.toNat < arguments then (UInt16.ofNat arguments).toNat
  else e.code.maxLocals.toNat

def Entry.frame (e : Entry) (args : List Value) : Frame :=
  { method := e.label, code := e.code.bytes, maxStack := e.code.maxStack.toNat,
    locals := Frame.seed (e.slots args.length) args }

def registeredEntry : Log.Entry :=
  { level := .debug, logger := "nanojvm.native",
    message := utf8 s!"registered {Registry.standardNames.length} native classes" }

def machineEntry (level : Log.Level) (message : Bytes) : Log.Entry :=
  { level, logger := "nanojvm.vm", message }

/-- Writes what was printed without an end of line, and reports. A failure of the run comes before
one of the last lines. -/
def finish (label : Bytes) (s : State) (outcome : Outcome) : Report :=
  let (flushed, store) : Option Library.Error × Store :=
    match Native.flush s.store with
    | .ok _ store => (none, store)
    | .error e store => (some e, store)
  let (value, failure) : Value × Option Failure :=
    match outcome, flushed with
    | .stopped reason, _ => (.void, some (.stopped reason))
    | .returned v, some e => (v, some (.library e))
    | .returned v, none => (v, none)
  let last := match failure with
    | some e => machineEntry .error
        (label ++ utf8 s!" aborted after {s.executed} instructions: " ++ e.message)
    | none => machineEntry .info (label ++ utf8 s!" returned after {s.executed} instructions")
  { instructions := s.executed, value, failure, store,
    log := registeredEntry :: s.trace.reverse.map (machineEntry .debug) ++ [last] }

def reportOn (label : Bytes) : State × Option Outcome → Option Report
  | (_, none) => none
  | (s, some outcome) => some (finish label s outcome)

/-- Where class files are run. -/
class Launching (m : Type → Type) extends Running m where
  parse (major : UInt16) (data : Bytes) : m (Except ClassFile.Error ClassFile × List Diagnostic)
  find (c : ClassFile) (name descriptor : Bytes) : m (Except Failure Entry)

instance : Launching Id where
  parse := ClassFile.parse
  find := Entry.find

namespace Launching
variable {m : Type → Type} [Monad m] [Launching m]

/-- Runs a method for at most the given number of rounds; there is no report if it takes more. The
store is the standard one, to which classes and objects of the caller may have been added. -/
def runMethod (rounds : Nat) (options : Options) (store : Store) (c : ClassFile)
    (name descriptor : Bytes) (args : List Value) : m (Option Report) := do
  match ← find c name descriptor with
  | .error failure => pure (some { failure := some failure, store })
  | .ok entry =>
    let ended ← Running.run (options.setting c) rounds { frame := entry.frame args, store }
    pure (reportOn entry.label ended)

def runBytes (rounds : Nat) (options : Options) (major : UInt16) (store : Store) (data : Bytes)
    (name descriptor : Bytes) (args : List Value) : m (Option Report) := do
  match ← parse major data with
  | (.error e, diagnostics) =>
    pure (some { failure := some (.link e), store, log := diagnostics.map Log.ofDiagnostic })
  | (.ok c, diagnostics) =>
    let report ← runMethod rounds options store c name descriptor args
    pure (report.map fun report =>
      { report with log := diagnostics.map Log.ofDiagnostic ++ report.log })

end Launching

def runMethod (rounds : Nat) (options : Options) (store : Store) (c : ClassFile)
    (name descriptor : Bytes) (args : List Value) : Option Report :=
  Id.run (Launching.runMethod rounds options store c name descriptor args)

def runBytes (rounds : Nat) (options : Options) (major : UInt16) (store : Store) (data : Bytes)
    (name descriptor : Bytes) (args : List Value) : Option Report :=
  Id.run (Launching.runBytes rounds options major store data name descriptor args)

end ClassMachine.Machine
