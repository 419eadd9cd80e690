import ClassMachine.Library.Store

/-!
Native methods. A class has a table of static methods and one of instance methods, in both of which
a method is found by its name and descriptor joined by a colon.
-/

namespace ClassMachine

abbrev Call := EStateM Library.Error Store

/-- The implementation of a native method, which gets the receiver, if there is one, as the first
argument. -/
abbrev Native := List Value → Call Value

structure Method where
  owner : ClassId
  isStatic : Bool
  name : Bytes
  descriptor : Bytes
  type : MethodType
  run : Native

namespace Method

def keyOf (name descriptor : Bytes) : Bytes := name ++ utf8 ":" ++ descriptor

def key (m : Method) : Bytes := keyOf m.name m.descriptor

/-- A place in the tables: which table of which class, and the key. -/
structure Place where
  cls : ClassId
  isStatic : Bool
  key : Bytes
deriving DecidableEq

def place (m : Method) : Place := ⟨m.owner, m.isStatic, m.key⟩

/-- The number of values that a call takes, the receiver included. -/
def arity (m : Method) : Nat :=
  if m.isStatic then m.type.params.length else m.type.params.length + 1

def miscounted (m : Method) (args : List Value) : Call Value := fun s =>
  .error (.arity (s.className m.owner) m.key args.length m.arity) s

/-- Runs a method with as many values as it takes. A void method has no result. -/
def invokeWith {n : Type → Type} [Monad n] [MonadLiftT Call n] (m : Method)
    (run : List Value → n Value) (args : List Value) : n Value := do
  if args.length ≠ m.arity then m.miscounted args
  else
    let v ← run args
    pure (if m.type.void then .void else v)

def invoke (m : Method) (args : List Value) : Call Value := m.invokeWith m.run args

end Method

/-- The tables of all classes. -/
abbrev Methods := Table Method.Place Method

def Methods.find? (ms : Methods) (c : ClassId) (isStatic : Bool) (key : Bytes) : Option Method :=
  ms.get? ⟨c, isStatic, key⟩

/-- A method is in the tables if it is found at some place. -/
instance : Membership Method Methods := ⟨fun ms m => ∃ place, ms.get? place = some m⟩

def constructorName : Bytes := utf8 "<init>"

end ClassMachine
