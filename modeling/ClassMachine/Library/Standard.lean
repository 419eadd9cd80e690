import ClassMachine.Library.Native
import ClassMachine.Library.Registry

/-!
The standard library: six classes, one object, which `System.out` refers to, and the native
methods.
-/

namespace ClassMachine.Registry

def objectClass : ClassId := 0
def printStreamClass : ClassId := 1
def systemClass : ClassId := 2
def stringBuilderClass : ClassId := 3
def integerClass : ClassId := 4
def stringClass : ClassId := 5

def systemOut : ObjectId := 0

def standardNames : List Bytes :=
  [utf8 "java/lang/Object", utf8 "java/io/PrintStream", utf8 "java/lang/System",
    utf8 "java/lang/StringBuilder", utf8 "java/lang/Integer", utf8 "java/lang/String"]

def native (owner : ClassId) (isStatic : Bool) (name : String) (params : List String)
    (ret : String) (run : Native) : Method :=
  { owner, isStatic, name := utf8 name,
    descriptor := utf8 "(" ++ params.flatMap utf8 ++ utf8 ")" ++ utf8 ret,
    type := { params := params.map utf8, ret := utf8 ret }, run }

/-- A native method that can run wherever native methods run. -/
structure Builtin where
  owner : ClassId
  isStatic : Bool
  name : String
  params : List String
  ret : String
  run {m : Type → Type} [Monad m] [MonadLiftT Call m] [Native.Arguments m] : List Value → m Value

def Builtin.method (b : Builtin) : Method :=
  native b.owner b.isStatic b.name b.params b.ret b.run

def builtins : List Builtin :=
  [⟨objectClass, false, "<init>", [], "V", Native.nothing⟩,
    ⟨printStreamClass, false, "println", ["Ljava/lang/String;"], "V",
      Native.printlnString printStreamClass⟩,
    ⟨printStreamClass, false, "println", ["I"], "V", Native.printlnInt printStreamClass⟩,
    ⟨printStreamClass, false, "println", [], "V", Native.printlnEmpty printStreamClass⟩,
    ⟨printStreamClass, false, "print", ["Ljava/lang/String;"], "V",
      Native.printString printStreamClass⟩,
    ⟨stringBuilderClass, false, "<init>", [], "V", Native.builderInit stringBuilderClass⟩,
    ⟨stringBuilderClass, false, "append", ["Ljava/lang/String;"], "Ljava/lang/StringBuilder;",
      Native.appendString stringBuilderClass⟩,
    ⟨stringBuilderClass, false, "append", ["I"], "Ljava/lang/StringBuilder;",
      Native.appendInt stringBuilderClass⟩,
    ⟨stringBuilderClass, false, "append", ["C"], "Ljava/lang/StringBuilder;",
      Native.appendChar stringBuilderClass⟩,
    ⟨stringBuilderClass, false, "toString", [], "Ljava/lang/String;",
      Native.builderToString stringBuilderClass⟩,
    ⟨integerClass, true, "toString", ["I"], "Ljava/lang/String;",
      Native.formatInt "Integer.toString"⟩,
    ⟨stringClass, true, "valueOf", ["I"], "Ljava/lang/String;",
      Native.formatInt "String.valueOf"⟩]

def standardMethods : Methods := ⟨builtins.map fun b => (b.method.place, b.method)⟩

def standardStore (sink : Sink) : Store :=
  { classes := standardNames.mapIdx fun c name =>
      if c = systemClass then { name, statics := ⟨[(utf8 "out", .obj systemOut)]⟩ } else { name },
    registered := ⟨standardNames.mapIdx fun c name => (name, c)⟩,
    objects := [{ cls := printStreamClass }],
    sink }

def standard (sink : Sink) : Registry :=
  { store := standardStore sink, methods := standardMethods }

end ClassMachine.Registry
