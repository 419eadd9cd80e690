import ClassMachine.Library.Error
import ClassMachine.Table

/-!
The state that native methods act on: the classes with their static fields, the objects with
their fields, the text printed but not yet written, and the lines written so far.
-/

namespace ClassMachine

/-- Where printed lines go. `accepts k` says whether the line offered after `k` others is taken;
`offers` lists the lines offered so far, and which of them were taken. -/
structure Sink where
  accepts : Nat → Bool := fun _ => true
  offers : List (Bytes × Bool) := []

namespace Sink

def upTo (n : Nat) : Sink := { accepts := fun k => k < n }

def offer (sink : Sink) (line : Bytes) : Bool × Sink :=
  let taken := sink.accepts sink.offers.length
  (taken, { sink with offers := sink.offers ++ [(line, taken)] })

def offered (sink : Sink) : List Bytes := sink.offers.map Prod.fst

def lines (sink : Sink) : List Bytes := (sink.offers.filter Prod.snd).map Prod.fst

end Sink

structure Class where
  name : Bytes
  statics : Table Bytes Value := {}

structure Object where
  cls : ClassId
  fields : Table Bytes Value := {}

/-- The classes, the objects and the printed text. Classes and objects are known by their place
in the list; `registered` gives the classes that can be looked up by name. -/
structure Store where
  classes : List Class := []
  registered : Table Bytes ClassId := {}
  objects : List Object := []
  /-- What each object has printed since its last line, in the order of the first prints. -/
  pending : Table ObjectId Bytes := {}
  sink : Sink := {}

namespace Store

def className (s : Store) (c : ClassId) : Bytes :=
  match s.classes[c]? with
  | some cls => cls.name
  | none => []

def lookup (s : Store) (name : Bytes) : Except Library.Error ClassId :=
  match s.registered.get? name with
  | some c => .ok c
  | none => .error (.classNotFound name)

def staticField (s : Store) (c : ClassId) (name : Bytes) : Except Library.Error Value :=
  match s.classes[c]?.bind fun cls => cls.statics.get? name with
  | some v => .ok v
  | none => .error (.fieldNotFound (s.className c) name)

def setStaticField (s : Store) (c : ClassId) (name : Bytes) (v : Value) : Store :=
  { s with classes := s.classes.modify c fun cls => { cls with statics := cls.statics.set name v } }

def newClass (s : Store) (name : Bytes) : ClassId × Store :=
  (s.classes.length, { s with classes := s.classes ++ [{ name }] })

def newObject (s : Store) (c : ClassId) : ObjectId × Store :=
  (s.objects.length, { s with objects := s.objects ++ [{ cls := c }] })

def classOf? (s : Store) (o : ObjectId) : Option ClassId := s.objects[o]?.map Object.cls

/-- A field of an object; void when it is not set. -/
def getField (s : Store) (o : ObjectId) (name : Bytes) : Value :=
  match s.objects[o]?.bind fun object => object.fields.get? name with
  | some v => v
  | none => .void

def setField (s : Store) (o : ObjectId) (name : Bytes) (v : Value) : Store :=
  { s with objects := s.objects.modify o fun object =>
      { object with fields := object.fields.set name v } }

def instanceOf (s : Store) (v : Value) (c : ClassId) : Bool :=
  match v with
  | .obj o => s.classOf? o == some c
  | _ => false

/-- A value as text. An object is shown by its class; where it lives has no meaning here. -/
def text (s : Store) : Value → Bytes
  | .int n => Bytes.signed n.toInt
  | .str t => t
  | .null => utf8 "null"
  | .obj o => (s.classOf? o).elim [] s.className ++ utf8 "@ADDR"
  | .void | .alien _ => utf8 "<void>"

def pendingOf (s : Store) (o : ObjectId) : Bytes := (s.pending.get? o).getD []

end Store

end ClassMachine
