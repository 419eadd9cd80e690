import ClassMachine.Text.IntegerLiteral
import ClassMachine.Text.Quoted

/-!
The flags of the command. A flag starts with one or two hyphens; its value follows an equals sign, or
is the next argument. Flags end at the first argument that is none, or at `--`.
-/

namespace ClassMachine.Cli

structure Options where
  config : Bytes := []
  entry : Bytes := utf8 "main"
  descriptor : Bytes := []
  classPath : Bytes := utf8 "."
  verbosity : Option Int := none
  logPath : Option Bytes := none
  maxInstructions : Option Int := none
  dump : Bytes := []
  disassemble : Bool := false
deriving DecidableEq

inductive Flag
  | text (set : Options → Bytes → Options)
  | number (set : Options → Int → Options)
  | switch (set : Options → Bool → Options)

def flags : List (String × Flag) :=
  [("config", .text fun o v => { o with config := v }),
    ("m", .text fun o v => { o with entry := v }),
    ("descriptor", .text fun o v => { o with descriptor := v }),
    ("cp", .text fun o v => { o with classPath := v }),
    ("v", .number fun o v => { o with verbosity := some v }),
    ("log", .text fun o v => { o with logPath := some v }),
    ("max-instructions", .number fun o v => { o with maxInstructions := some v }),
    ("dump", .text fun o v => { o with dump := v }),
    ("disasm", .switch fun o v => { o with disassemble := v })]

def findFlag (name : Bytes) : Option Flag :=
  (flags.find? fun f => utf8 f.1 == name).map Prod.snd

inductive FlagError
  | malformed (arg : Bytes)
  | undefined (name : Bytes)
  | noValue (name : Bytes)
  | badNumber (value name : Bytes) (cause : Text.IntegerError)
  | badSwitch (value name : Bytes)
  | help
deriving DecidableEq

def FlagError.message : FlagError → Bytes
  | .malformed arg => utf8 "bad flag syntax: " ++ arg ++ utf8 "\n"
  | .undefined name => utf8 "flag provided but not defined: -" ++ name ++ utf8 "\n"
  | .noValue name => utf8 "flag needs an argument: -" ++ name ++ utf8 "\n"
  | .badNumber value name e =>
    utf8 "invalid value " ++ Text.quote value ++ utf8 " for flag -" ++ name ++ utf8 ": " ++
      e.message ++ utf8 "\n"
  | .badSwitch value name =>
    utf8 "invalid boolean value " ++ Text.quote value ++ utf8 " for -" ++ name ++
      utf8 ": parse error\n"
  | .help => []

def boolOf (s : Bytes) : Option Bool :=
  if (["1", "t", "T", "TRUE", "true", "True"].map utf8).contains s then some true
  else if (["0", "f", "F", "FALSE", "false", "False"].map utf8).contains s then some false
  else none

inductive Shape
  | plain
  | stop
  | malformed
  | flag (name : Bytes) (value : Option Bytes)
deriving DecidableEq

/-- Splits a flag from its value, at an equals sign after the first byte. -/
def splitValue : Bytes → Bytes × Option Bytes
  | [] => ([], none)
  | b :: rest =>
    let name := b :: rest.takeWhile (· != 61)
    match rest.dropWhile (· != 61) with
    | [] => (name, none)
    | _ :: value => (name, some value)

def shapeOfName (name : Bytes) : Shape :=
  match name with
  | [] => .malformed
  | b :: _ =>
    if b = 45 ∨ b = 61 then .malformed
    else
      let (name, value) := splitValue name
      .flag name value

def shapeOf : Bytes → Shape
  | [45, 45] => .stop
  | 45 :: 45 :: name => shapeOfName name
  | 45 :: b :: name => shapeOfName (b :: name)
  | _ => .plain

def unknown (name : Bytes) : FlagError :=
  if name = utf8 "help" ∨ name = utf8 "h" then .help else .undefined name

def setFlag (flag : Flag) (name value : Bytes) (o : Options) : Except FlagError Options :=
  match flag with
  | .text set => .ok (set o value)
  | .number set =>
    match Text.integerLiteral value with
    | .ok n => .ok (set o n)
    | .error e => .error (.badNumber value name e)
  | .switch set =>
    match boolOf value with
    | some b => .ok (set o b)
    | none => .error (.badSwitch value name)

def readFlags (o : Options) : List Bytes → Except FlagError (Options × List Bytes)
  | [] => .ok (o, [])
  | arg :: rest =>
    match shapeOf arg with
    | .plain => .ok (o, arg :: rest)
    | .stop => .ok (o, rest)
    | .malformed => .error (.malformed arg)
    | .flag name value =>
      match findFlag name, value, rest with
      | none, _, _ => .error (unknown name)
      | some flag, some value, rest => do readFlags (← setFlag flag name value o) rest
      | some (.switch set), none, rest => readFlags (set o true) rest
      | some _, none, [] => .error (.noValue name)
      | some flag, none, value :: rest => do readFlags (← setFlag flag name value o) rest

def usage : Bytes := utf8 "Usage: nanojvm [options] <file.class | class/Name>

Options:
  -config string
    \tTOML configuration file
  -cp string
    \tClass path for class names: directories and .jar files (default \".\")
  -descriptor string
    \tEntry method descriptor (default: first method named -m)
  -disasm
    \tPrint the entry method's bytecode and exit
  -dump string
    \tWrite a CBOR snapshot of the parsed class to this file and exit
  -log string
    \tLog file (default stderr)
  -m string
    \tEntry method name (default \"main\")
  -max-instructions int
    \tInstruction budget, 0 for none (default from config) (default -1)
  -v int
    \tLog verbosity (-1 quiet .. 2 debug)

Examples:
  nanojvm Hello.class               # Run Hello.main
  nanojvm -cp lib.jar demo/Hello    # Load demo/Hello from a jar
  nanojvm -disasm Hello.class       # Show main's bytecode
"

end ClassMachine.Cli
