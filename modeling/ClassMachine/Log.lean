import ClassMachine.ClassFile.Basic

/-!
What is reported beside the results: entries of a level, filtered by a verbosity.
-/

namespace ClassMachine.Log

inductive Level
  | error
  | warning
  | info
  | debug
deriving DecidableEq

def Level.name : Level → String
  | .error => "Error"
  | .warning => "Warning"
  | .info => "Info"
  | .debug => "Debug"

/-- The least verbosity at which entries of a level are shown. -/
def Level.verbosity : Level → Int
  | .error => -2
  | .warning => -1
  | .info => 1
  | .debug => 2

structure Entry where
  level : Level
  logger : String
  message : Bytes
  fields : List (String × String) := []

def allows (verbosity : Int) (level : Level) : Bool := level.verbosity ≤ verbosity

def visible (verbosity : Int) (entries : List Entry) : List Entry :=
  entries.filter fun e => allows verbosity e.level

def ofDiagnostic (d : Diagnostic) : Entry :=
  { level := .warning, logger := "nanojvm.classfile", message := d.message,
    fields := [("kind", d.kind), ("offset", toString d.offset)] }

end ClassMachine.Log
