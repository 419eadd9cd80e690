import Mathlib.Algebra.Group.Nat.Defs
import ClassMachine.Assembler.Layout
import ClassMachine.ClassFile.Parser

/-! The layout of a class file. A class file does not hold the exception tables of its Code
attributes, so the layout takes them as an argument; everything else in the bytes comes from the
class. `WellFormed` says which classes have a layout that means them, and `notes` which anomalies
a reader has to report on the way. -/
namespace ClassMachine
open Assembler (count length4)

/-- An entry of an exception table: eight bytes that nothing looks into. -/
abbrev ExceptionEntry := { b : Bytes // b.length = 8 }

/-- The exception tables of an attribute: its own, and those of the attributes inside it. Where
tables are missing they are empty, and those of an attribute without code do not matter. -/
structure ExceptionTables where
  entries : List ExceptionEntry := []
  inner : List ExceptionTables := []

namespace Constant

def payload : Constant → Bytes
  | .utf8 bytes => count bytes ++ bytes
  | .cls name => Bytes.u2 name
  | .string text => Bytes.u2 text
  | .ref _ owner member => Bytes.u2 owner ++ Bytes.u2 member
  | .nameAndType name descriptor => Bytes.u2 name ++ Bytes.u2 descriptor

def layout (c : Constant) : Bytes := c.kind.tag :: c.payload

def Fits : Constant → Prop
  | .utf8 bytes => bytes.length < 2 ^ 16
  | _ => True

end Constant

namespace Attribute

def codePayload (maxStack maxLocals : UInt16) (bytes : Bytes) (entries : List ExceptionEntry)
    (inside : Bytes) : Bytes :=
  Bytes.u2 maxStack ++ Bytes.u2 maxLocals ++ length4 bytes ++ bytes ++ count entries ++
    entries.flatMap Subtype.val ++ inside

mutual

def layout : Attribute → ExceptionTables → Bytes
  | .code nameIndex maxStack maxLocals bytes attributes, t =>
    let payload := codePayload maxStack maxLocals bytes t.entries
      (count attributes ++ layouts attributes t.inner)
    Bytes.u2 nameIndex ++ length4 payload ++ payload
  | .other nameIndex _ info, _ => Bytes.u2 nameIndex ++ length4 info ++ info

def layouts : List Attribute → List ExceptionTables → Bytes
  | [], _ => []
  | a :: as, ts => layout a (ts.headD {}) ++ layouts as ts.tail

end

def counted (as : List Attribute) (ts : List ExceptionTables) : Bytes := count as ++ layouts as ts

mutual

/-- Counts and lengths fit their fields, the name resolves, and an attribute is a Code attribute
exactly when that is its name. -/
def Fits (pool : Pool) : Attribute → ExceptionTables → Prop
  | .code nameIndex maxStack maxLocals bytes attributes, t =>
    pool.text nameIndex = .ok (utf8 "Code") ∧ bytes.length < 2 ^ 32 ∧
      t.entries.length < 2 ^ 16 ∧ attributes.length < 2 ^ 16 ∧
      (codePayload maxStack maxLocals bytes t.entries (counted attributes t.inner)).length <
        2 ^ 32 ∧
      AllFit pool attributes t.inner
  | .other nameIndex name info, _ =>
    pool.text nameIndex = .ok name ∧ name ≠ utf8 "Code" ∧ info.length < 2 ^ 32

def AllFit (pool : Pool) : List Attribute → List ExceptionTables → Prop
  | [], _ => True
  | a :: as, ts => Fits pool a (ts.headD {}) ∧ AllFit pool as ts.tail

end

mutual

/-- The anomalies in an attribute that starts at `offset`: one for each attribute that is kept as
bytes, at the offset of its payload. -/
def notes : Attribute → ExceptionTables → Nat → List Diagnostic
  | .code _ _ _ bytes attributes, t, offset =>
    notesAll attributes t.inner (offset + 14 + bytes.length + 2 + 8 * t.entries.length + 2)
  | .other _ name info, _, offset =>
    [.unhandledAttribute (offset + 6) name (UInt32.ofNat info.length)]

def notesAll : List Attribute → List ExceptionTables → Nat → List Diagnostic
  | [], _, _ => []
  | a :: as, ts, offset =>
    notes a (ts.headD {}) offset ++
      notesAll as ts.tail (offset + (layout a (ts.headD {})).length)

end

mutual

/-- The number of Code attributes around the innermost attribute, itself included. -/
def nesting : Attribute → Nat
  | .code _ _ _ _ attributes => nestings attributes + 1
  | .other .. => 0

def nestings : List Attribute → Nat
  | [] => 0
  | a :: as => max (nesting a) (nestings as)

end

mutual

/-- A Code attribute takes eighteen bytes beside the attributes inside it. -/
theorem nesting_le : ∀ (a : Attribute) (t : ExceptionTables), 18 * a.nesting ≤ (a.layout t).length
  | .code _ _ _ _ attributes, t => by
    have h := nestings_le attributes t.inner
    simp [nesting, layout, codePayload, count, length4, Bytes.u2, Bytes.u4]
    omega
  | .other .., _ => by simp [nesting]

theorem nestings_le : ∀ (as : List Attribute) (ts : List ExceptionTables),
    18 * nestings as ≤ (layouts as ts).length
  | [], _ => by simp [nestings]
  | a :: as, ts => by
    have h := nesting_le a (ts.headD {})
    have hs := nestings_le as ts.tail
    simp only [nestings, layouts, List.length_append]
    omega

end

end Attribute

namespace Member

def layout (m : Member) (ts : List ExceptionTables) : Bytes :=
  Bytes.u2 m.flags.bits ++ Bytes.u2 m.nameIndex ++ Bytes.u2 m.descriptorIndex ++
    Attribute.counted m.attributes ts

def Fits (pool : Pool) (m : Member) (ts : List ExceptionTables) : Prop :=
  m.attributes.length < 2 ^ 16 ∧ Attribute.AllFit pool m.attributes ts

def notes (m : Member) (ts : List ExceptionTables) (offset : Nat) : List Diagnostic :=
  Attribute.notesAll m.attributes ts (offset + 8)

def layouts : List Member → List (List ExceptionTables) → Bytes
  | [], _ => []
  | m :: ms, ts => m.layout (ts.headD []) ++ layouts ms ts.tail

def AllFit (pool : Pool) : List Member → List (List ExceptionTables) → Prop
  | [], _ => True
  | m :: ms, ts => m.Fits pool (ts.headD []) ∧ AllFit pool ms ts.tail

def notesAll : List Member → List (List ExceptionTables) → Nat → List Diagnostic
  | [], _, _ => []
  | m :: ms, ts, offset =>
    m.notes (ts.headD []) offset ++ notesAll ms ts.tail (offset + (m.layout (ts.headD [])).length)

theorem nestings_le (ms : List Member) (ts : List (List ExceptionTables)) (m : Member)
    (hm : m ∈ ms) : 18 * Attribute.nestings m.attributes ≤ (layouts ms ts).length := by
  induction ms generalizing ts with
  | nil => simp at hm
  | cons x ms ih =>
    simp only [layouts, List.length_append]
    rcases List.mem_cons.1 hm with rfl | hm
    · have h := Attribute.nestings_le m.attributes (ts.headD [])
      simp only [layout, Attribute.counted, List.length_append]
      omega
    · have h := ih ts.tail hm
      omega

end Member

namespace ClassFile

/-- The exception tables of the Code attributes of a class, by the attributes that hold them. -/
structure Tables where
  fields : List (List ExceptionTables) := []
  methods : List (List ExceptionTables) := []
  attributes : List ExceptionTables := []

def headLayout (c : ClassFile) : Bytes :=
  Bytes.u4 magic ++ Bytes.u2 c.minor ++ Bytes.u2 c.major ++ Bytes.u2 c.pool.count ++
    c.pool.entries.flatMap Constant.layout ++ Bytes.u2 c.flags.bits ++ Bytes.u2 c.thisClass ++
    Bytes.u2 c.superClass ++ count c.interfaces ++ c.interfaces.flatMap Bytes.u2

def fieldsLayout (c : ClassFile) (t : Tables) : Bytes :=
  count c.fields ++ Member.layouts c.fields t.fields

def methodsLayout (c : ClassFile) (t : Tables) : Bytes :=
  count c.methods ++ Member.layouts c.methods t.methods

def layout (c : ClassFile) (t : Tables) : Bytes :=
  c.headLayout ++ c.fieldsLayout t ++ c.methodsLayout t ++
    Attribute.counted c.attributes t.attributes

def notes (c : ClassFile) (t : Tables) (offset : Nat) : List Diagnostic :=
  let fieldsAt := offset + c.headLayout.length
  let methodsAt := fieldsAt + (c.fieldsLayout t).length
  let attributesAt := methodsAt + (c.methodsLayout t).length
  Member.notesAll c.fields t.fields (fieldsAt + 2) ++
    Member.notesAll c.methods t.methods (methodsAt + 2) ++
    Attribute.notesAll c.attributes t.attributes (attributesAt + 2)

/-- The version is the one that is wanted, the pool has an entry for each index from 1 up to its
count, and every count, length and attribute fits. -/
structure WellFormed (want : UInt16) (c : ClassFile) (t : Tables) : Prop where
  major : c.major = want
  entries : c.pool.entries.length = c.pool.count.toNat - 1
  constants : ∀ k ∈ c.pool.entries, k.Fits
  interfaces : c.interfaces.length < 2 ^ 16
  fields : c.fields.length < 2 ^ 16 ∧ Member.AllFit c.pool c.fields t.fields
  methods : c.methods.length < 2 ^ 16 ∧ Member.AllFit c.pool c.methods t.methods
  attributes : c.attributes.length < 2 ^ 16 ∧ Attribute.AllFit c.pool c.attributes t.attributes

end ClassFile

end ClassMachine
