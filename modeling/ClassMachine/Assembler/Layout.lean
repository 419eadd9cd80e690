import ClassMachine.Assembler.Basic

/-!
The bytes of an assembled class file. A name that is not in the pool is written as place 0, and
every count is cut to the width of its field.
-/

namespace ClassMachine.Assembler

def count {α : Type} (l : List α) : Bytes := Bytes.u2 (UInt16.ofNat l.length)

def length4 (b : Bytes) : Bytes := Bytes.u4 (UInt32.ofNat b.length)

def place (a : Assembler) (s : Bytes) : Bytes := Bytes.u2 ((a.texts.get? s).getD 0)

def attributeBytes (a : Assembler) (attr : Attribute) : Bytes :=
  a.place attr.name ++ length4 attr.info ++ attr.info

def attributesBytes (a : Assembler) (attrs : List Attribute) : Bytes :=
  count attrs ++ attrs.flatMap a.attributeBytes

def codeBytes (a : Assembler) (c : Code) : Bytes :=
  Bytes.u2 c.maxStack ++ Bytes.u2 c.maxLocals ++ length4 c.bytes ++ c.bytes ++
    Bytes.u2 (UInt16.ofNat c.exceptionEntries) ++ List.replicate (8 * c.exceptionEntries) 0 ++
    a.attributesBytes c.attributes

def memberAttributes (a : Assembler) (m : Member) : List Attribute :=
  match m.code with
  | some code => { name := utf8 "Code", info := a.codeBytes code } :: m.attributes
  | none => m.attributes

def memberBytes (a : Assembler) (m : Member) : Bytes :=
  Bytes.u2 m.flags ++ a.place m.name ++ a.place m.descriptor ++
    a.attributesBytes (a.memberAttributes m)

def membersBytes (a : Assembler) (ms : List Member) : Bytes :=
  count ms ++ ms.flatMap a.memberBytes

def poolBytes (a : Assembler) : Bytes :=
  Bytes.u2 (UInt16.ofNat (a.pool.length + 1)) ++ a.pool.flatMap fun c => c.tag :: c.payload

def bytes (a : Assembler) : Bytes :=
  Bytes.u4 a.magic ++ Bytes.u2 a.minor ++ Bytes.u2 a.major ++ a.poolBytes ++
    Bytes.u2 a.flags ++ Bytes.u2 a.thisClass ++ Bytes.u2 a.superClass ++
    count a.interfaces ++ a.interfaces.flatMap Bytes.u2 ++
    a.membersBytes a.fields ++ a.membersBytes a.methods ++ a.attributesBytes a.attributes ++
    a.trailing

/-- The attribute of a method's code, for placing it by hand. -/
def codeAttribute (c : Code) : Assembly Bytes := do
  internAttributes c.attributes
  return (← get).codeBytes c

end ClassMachine.Assembler
