import ClassMachine.Library.Descriptor
import ClassMachine.Library.Value

/-!
What can go wrong when classes are looked up or defined, and when native methods are called.
-/

namespace ClassMachine.Library

inductive Refusal
  | unnamedClass
  | registeredTwice
  | noImplementation
  | definedTwice
  | badDescriptor (cause : MethodType.Error)
  | badConstructor
deriving DecidableEq

def Refusal.message : Refusal → Bytes
  | .unnamedClass => utf8 "class has no name"
  | .registeredTwice => utf8 "already registered"
  | .noImplementation => utf8 "nil implementation"
  | .definedTwice => utf8 "already defined"
  | .badDescriptor e => e.message
  | .badConstructor => utf8 "constructors must be void instance methods"

inductive Error
  | classNotFound (name : Bytes)
  | methodNotFound (isStatic : Bool) (cls name descriptor : Bytes)
  | fieldNotFound (cls name : Bytes)
  /-- A method called on a value that is no object of its class; `shown` is the value's text. -/
  | receiver (cls method : Bytes) (kind : ValueKind) (shown : Bytes)
  | argument (method : String) (index : Nat) (got want : ValueKind)
  | missingArgument (method : String) (index : Nat)
  | arity (cls key : Bytes) (got want : Nat)
  | registration (cls key : Bytes) (reason : Refusal)
  | sinkFull
  | reported (text : Bytes)
deriving DecidableEq

def Error.message : Error → Bytes
  | .classNotFound name => utf8 "class " ++ name ++ utf8 " not found"
  | .methodNotFound isStatic cls name descriptor =>
    utf8 (if isStatic then "static" else "instance") ++ utf8 " method " ++ cls ++ utf8 "." ++
      name ++ utf8 ":" ++ descriptor ++ utf8 " not found"
  | .fieldNotFound cls name => utf8 "static field " ++ cls ++ utf8 "." ++ name ++ utf8 " not found"
  | .receiver cls method kind shown =>
    cls ++ utf8 "." ++ method ++ utf8 s!": receiver is {kind.name} " ++ shown ++
      utf8 ", not a " ++ cls
  | .argument method index got want =>
    utf8 s!"{method}: argument {index} is {got.name}, want {want.name}"
  | .missingArgument method index => utf8 s!"{method}: argument {index} is missing"
  | .arity cls key got want =>
    cls ++ utf8 "." ++ key ++ utf8 s!": got {got} arguments, want {want}"
  | .registration cls key reason =>
    utf8 "registering " ++ cls ++ (if key.isEmpty then [] else utf8 " " ++ key) ++ utf8 ": " ++
      reason.message
  | .sinkFull => utf8 "sink full"
  | .reported text => text

end ClassMachine.Library
