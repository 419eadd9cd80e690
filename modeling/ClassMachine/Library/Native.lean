import ClassMachine.Library.Method
import ClassMachine.Text.Utf8

/-!
The native methods of the standard library. `System.out` is a print stream: `print` collects text
for the object it is called on, and `println` writes that text and its own as one line. A string
builder keeps its text in a field.
-/

namespace ClassMachine.Native

/-- Where native methods run: they take the arguments that they are called with one by one. -/
class Arguments (m : Type → Type) where
  argument (method : String) (args : List Value) (i : Nat) : m Value

instance : Arguments Call where
  argument method args i :=
    match args[i]? with
    | some v => pure v
    | none => throw (.missingArgument method i)

def intText (n : Int32) : Bytes := Bytes.signed n.toInt

/-- The character with the number of the low 16 bits; a surrogate is no character and gives the
replacement character. -/
def charText (n : Int32) : Bytes :=
  let code := n.toUInt32.toNat % 65536
  Utf8.encode (if code.isValidChar then Char.ofNat code else '�')

def receive (owner : ClassId) (method : String) (got : Value) : Call ObjectId := fun s =>
  match got with
  | .obj o =>
    if s.classOf? o = some owner then .ok o s
    else .error (.receiver (s.className owner) (utf8 method) got.kind (s.text got)) s
  | _ => .error (.receiver (s.className owner) (utf8 method) got.kind (s.text got)) s

def writeLine (line : Bytes) : Call Unit := fun s =>
  match s.sink.offer line with
  | (true, sink) => .ok () { s with sink }
  | (false, sink) => .error .sinkFull { s with sink }

def takePending (o : ObjectId) : Call Bytes := fun s =>
  match s.pending.get? o with
  | some text => .ok text { s with pending := s.pending.set o [] }
  | none => .ok [] s

def addPending (o : ObjectId) (text : Bytes) : Call Unit := fun s =>
  .ok () { s with pending := s.pending.set o (s.pendingOf o ++ text) }

def textField : Bytes := utf8 "str"

def builderText (s : Store) (o : ObjectId) : Bytes :=
  match s.getField o textField with
  | .str t => t
  | _ => []

def setBuilderText (o : ObjectId) (text : Bytes) : Call Unit := fun s =>
  .ok () (s.setField o textField (.str text))

section Methods
open Arguments
variable {m : Type → Type} [Monad m] [MonadLiftT Call m] [Arguments m] {α : Type}

def refuse (e : Library.Error) : m α := liftM (throw e : Call α)

def receiver (owner : ClassId) (method : String) (args : List Value) : m ObjectId := do
  let got ← if args.isEmpty then pure .void else argument method args 0
  receive owner method got

def textArgument (method : String) (args : List Value) (i : Nat) : m Bytes := do
  match ← argument method args i with
  | .str t => pure t
  | v => refuse (.argument method i v.kind .string)

def intArgument (method : String) (args : List Value) (i : Nat) : m Int32 := do
  match ← argument method args i with
  | .int n => pure n
  | v => refuse (.argument method i v.kind .int)

/-- A constructor that does nothing, whatever it is called on. -/
def nothing (_ : List Value) : m Value := pure .void

def printLine (owner : ClassId) (args : List Value) (text : Bytes) : m Value := do
  let o ← receiver owner "println" args
  let before ← takePending o
  writeLine (before ++ text)
  pure .void

def printlnString (owner : ClassId) (args : List Value) : m Value := do
  let text ← textArgument "println" args 1
  printLine owner args text

def printlnInt (owner : ClassId) (args : List Value) : m Value := do
  let n ← intArgument "println" args 1
  printLine owner args (intText n)

def printlnEmpty (owner : ClassId) (args : List Value) : m Value := printLine owner args []

def printString (owner : ClassId) (args : List Value) : m Value := do
  let o ← receiver owner "print" args
  let text ← textArgument "print" args 1
  addPending o text
  pure .void

def builderInit (owner : ClassId) (args : List Value) : m Value := do
  let o ← receiver owner "<init>" args
  setBuilderText o []
  pure .void

/-- Adds a rendered argument to a string builder, which is the result. -/
def appendWith (owner : ClassId) (render : List Value → m Bytes) (args : List Value) : m Value := do
  let o ← receiver owner "append" args
  let text ← render args
  let s ← (get : Call Store)
  setBuilderText o (builderText s o ++ text)
  argument "append" args 0

def appendString (owner : ClassId) : List Value → m Value :=
  appendWith owner fun args => textArgument "append" args 1

def appendInt (owner : ClassId) : List Value → m Value :=
  appendWith owner fun args => do return intText (← intArgument "append" args 1)

def appendChar (owner : ClassId) : List Value → m Value :=
  appendWith owner fun args => do return charText (← intArgument "append" args 1)

def builderToString (owner : ClassId) (args : List Value) : m Value := do
  let o ← receiver owner "toString" args
  let s ← (get : Call Store)
  return .str (builderText s o)

def formatInt (method : String) (args : List Value) : m Value := do
  return .str (intText (← intArgument method args 0))

end Methods

/-- Writes what is pending for each of the objects as a line of its own, up to the first line that
is refused. -/
def flushEach : List ObjectId → Call Unit
  | [] => pure ()
  | o :: rest => do
    let text ← takePending o
    if text ≠ [] then writeLine text
    flushEach rest

def flush : Call Unit := fun s => flushEach s.pending.keys s

end ClassMachine.Native
