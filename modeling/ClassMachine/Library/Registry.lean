import ClassMachine.Library.Method

/-!
The class library: a store together with the native methods of its classes.
-/

namespace ClassMachine

open Library (Error Refusal)

structure Registry where
  store : Store := {}
  methods : Methods := {}

namespace Registry

def method (r : Registry) (c : ClassId) (isStatic : Bool) (name descriptor : Bytes) :
    Except Error Method :=
  match r.methods.find? c isStatic (Method.keyOf name descriptor) with
  | some m => .ok m
  | none => .error (.methodNotFound isStatic (r.store.className c) name descriptor)

def checkMethod (r : Registry) (c : ClassId) (isStatic : Bool) (name descriptor : Bytes) :
    Except Refusal MethodType :=
  if (r.methods.find? c isStatic (Method.keyOf name descriptor)).isSome then .error .definedTwice
  else match MethodType.parse descriptor with
    | .error e => .error (.badDescriptor e)
    | .ok type =>
      if name = constructorName ∧ (isStatic ∨ ¬ type.void) then .error .badConstructor
      else .ok type

/-- Changes of a registry. What is changed before a failure stays changed. -/
abbrev Update := EStateM Error Registry

namespace Update

def define (c : ClassId) (isStatic : Bool) (name descriptor : Bytes) (run : Option Native) :
    Update Unit := do
  let r ← get
  let key := Method.keyOf name descriptor
  match run with
  | none => throw (.registration (r.store.className c) key .noImplementation)
  | some run =>
    match r.checkMethod c isStatic name descriptor with
    | .error reason => throw (.registration (r.store.className c) key reason)
    | .ok type =>
      let m : Method := { owner := c, isStatic, name, descriptor, type, run }
      set { r with methods := r.methods.set ⟨c, isStatic, key⟩ m }

def register (c : Option ClassId) : Update Unit := do
  let r ← get
  match c with
  | none => throw (.registration [] [] .unnamedClass)
  | some c =>
    let name := r.store.className c
    if name.isEmpty then throw (.registration [] [] .unnamedClass)
    else if r.store.registered.contains name then throw (.registration name [] .registeredTwice)
    else set { r with store := { r.store with registered := r.store.registered.set name c } }

/-- The registry after a change that succeeds. -/
def result (u : Update Unit) (r : Registry) : Except Error Registry :=
  match u r with
  | .ok _ r' => .ok r'
  | .error e _ => .error e

end Update

def define (r : Registry) (c : ClassId) (isStatic : Bool) (name descriptor : Bytes)
    (run : Option Native) : Except Error Registry :=
  (Update.define c isStatic name descriptor run).result r

def register (r : Registry) (c : Option ClassId) : Except Error Registry :=
  (Update.register c).result r

def names (r : Registry) : List Bytes := r.store.registered.keys.mergeSort Bytes.le

end Registry

end ClassMachine
