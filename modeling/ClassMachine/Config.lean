import ClassMachine.Files.Basic
import ClassMachine.Machine.Run
import ClassMachine.Toml.Document

/-!
The configuration: which class files are accepted, how long methods may run, and what is reported.
-/

namespace ClassMachine

structure Config where
  majorVersion : Int := 50
  maxInstructions : Int := 10000000
  checkInterval : Int := 1024
  verbosity : Int := 0
  logPath : Bytes := []
deriving DecidableEq

namespace Config

inductive Problem
  | majorVersion (n : Int)
  | maxInstructions
  | checkInterval
deriving DecidableEq

def Problem.message : Problem → Bytes
  | .majorVersion n => utf8 s!"classfile.major-version {n} out of range"
  | .maxInstructions => utf8 "interpreter.max-instructions must not be negative"
  | .checkInterval => utf8 "interpreter.cancel-check-interval must be at least 1"

inductive Error
  /-- The text is no document, or a value is of the wrong type. -/
  | syntactic
  | unknownKeys (keys : List Toml.Path)
  | invalid (problems : List Problem)
deriving DecidableEq

def Error.message : Error → Bytes
  | .syntactic => utf8 "parse error: malformed document"
  | .unknownKeys keys => utf8 "unknown keys: " ++ Bytes.join (utf8 ", ") (keys.map Toml.keyText)
  | .invalid problems => Bytes.join (utf8 "\n") (problems.map Problem.message)

inductive Setting
  | majorVersion
  | maxInstructions
  | checkInterval
  | verbosity
  | logPath
deriving DecidableEq

def sections : List (String × List (String × Setting)) :=
  [("classfile", [("major-version", .majorVersion)]),
    ("interpreter",
      [("max-instructions", .maxInstructions), ("cancel-check-interval", .checkInterval)]),
    ("log", [("verbosity", .verbosity), ("path", .logPath)])]

/-- The lower-case form of a character, as far as ASCII letters are meant by it: the long s and the
Kelvin sign are two of their forms. -/
def foldChar (c : Char) : Char :=
  if c.toNat = 0x17F then 's' else if c.toNat = 0x212A then 'k' else c.toLower

/-- Whether a key means a name; letters of either case do. -/
def means (key : Bytes) (name : String) : Bool :=
  match Utf8.chars? key with
  | some cs => cs.map foldChar == name.toList
  | none => false

def lookup {α : Type} (key : Bytes) : List (String × α) → Option α
  | [] => none
  | (name, a) :: rest => if means key name then some a else lookup key rest

/-- Whether a key means a section or a setting which a document has. -/
def isTaken (root : Toml.Entries) : Toml.Path → Bool
  | [k] => (lookup k sections).isSome && (Table.find k root).isSome
  | [k, k'] =>
    ((lookup k sections).bind (lookup k')).isSome &&
      (Toml.Entries.at? [k] root).any fun es => (Table.find k' es).isSome
  | _ => false

def set (c : Config) (s : Setting) (v : Toml.Value) : Option Config :=
  match s, v with
  | .majorVersion, .scalar (.integer n) => some { c with majorVersion := n }
  | .maxInstructions, .scalar (.integer n) => some { c with maxInstructions := n }
  | .checkInterval, .scalar (.integer n) => some { c with checkInterval := n }
  | .verbosity, .scalar (.integer n) => some { c with verbosity := n }
  | .logPath, .scalar (.string s) => some { c with logPath := s }
  | _, _ => none

def setSection (names : List (String × Setting)) : Toml.Entries → Config → Option Config
  | [], c => some c
  | (k, v) :: rest, c => do
    let c ← match lookup k names with
      | some s => c.set s v
      | none => some c
    setSection names rest c

def setSections : Toml.Entries → Config → Option Config
  | [], c => some c
  | (k, v) :: rest, c => do
    let c ← match lookup k sections, v with
      | none, _ => some c
      | some names, .table es => setSection names es c
      | some _, _ => none
    setSections rest c

def problems (c : Config) : List Problem :=
  (if c.majorVersion < 1 ∨ 0xFFFF < c.majorVersion then [.majorVersion c.majorVersion] else []) ++
  (if c.maxInstructions < 0 then [.maxInstructions] else []) ++
  (if c.checkInterval < 1 then [.checkInterval] else [])

def validate (c : Config) : Except Error Config :=
  match c.problems with
  | [] => .ok c
  | ps => .error (.invalid ps)

/-- The configuration that a text gives; what it does not set has its default. -/
def parse (text : Bytes) : Except Error Config := do
  match Toml.parse text with
  | none => throw .syntactic
  | some document =>
    match setSections document.root {} with
    | none => throw .syntactic
    | some c =>
      match document.keys.filter (fun k => ¬ isTaken document.root k) with
      | [] => c.validate
      | unknown => throw (.unknownKeys unknown)

def major (c : Config) : UInt16 := UInt16.ofInt c.majorVersion

def limits (c : Config) : Machine.Limits :=
  { budget := c.maxInstructions, interval := c.checkInterval }

inductive LoadError
  | unreadable (cause : Files.PathError)
  | bad (path : Bytes) (cause : Error)
deriving DecidableEq

def LoadError.message : LoadError → Bytes
  | .unreadable e => utf8 "cannot read " ++ e.path ++ utf8 ": " ++ e.message
  | .bad path e => path ++ utf8 ": " ++ e.message

def load {m : Type → Type} [Monad m] (fs : Files.FileSystem m) (path : Bytes) :
    m (Except LoadError Config) := do
  match ← fs.readFile path with
  | .error e => return .error (.unreadable e)
  | .ok text => return (parse text).mapError (.bad path)

end Config

end ClassMachine
