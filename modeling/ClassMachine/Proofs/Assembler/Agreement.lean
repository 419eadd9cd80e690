import Mathlib.Algebra.BigOperators.Group.List.Basic
import Mathlib.Algebra.GroupWithZero.Nat
import ClassMachine.Proofs.Assembler.Places
import ClassMachine.Proofs.ClassFile.Grammar

/-! What is assembled is what is read. The bytes of an assembler are the layout of a class whose
indices are the places of the names (`bytes_eq_layout`), so they are read as that class, and through
its pool the indices lead back to the names that were given. -/
namespace ClassMachine.Assembler

/-- The place of a text; 0 if it has none. -/
def index (a : Assembler) (s : Bytes) : UInt16 := (a.texts.get? s).getD 0

def Attribute.read (a : Assembler) (x : Attribute) : ClassMachine.Attribute :=
  .other (a.index x.name) x.name x.info

def Code.read (a : Assembler) (k : Code) : ClassMachine.Attribute :=
  .code (a.index (utf8 "Code")) k.maxStack k.maxLocals k.bytes
    (k.attributes.map (Attribute.read a))

def Code.table (k : Code) : ExceptionTables :=
  { entries := List.replicate k.exceptionEntries ⟨List.replicate 8 0, rfl⟩ }

def Member.read (a : Assembler) (m : Member) : ClassMachine.Member :=
  { flags := ⟨m.flags⟩, nameIndex := a.index m.name, descriptorIndex := a.index m.descriptor,
    attributes := (m.code.map (Code.read a)).toList ++ m.attributes.map (Attribute.read a) }

def Member.tables (m : Member) : List ExceptionTables := (m.code.map Code.table).toList

def classFile (a : Assembler) (es : List Constant) : ClassFile :=
  { minor := a.minor, major := a.major, pool := Pool.of es, flags := ⟨a.flags⟩,
    thisClass := a.thisClass, superClass := a.superClass, interfaces := a.interfaces,
    fields := a.fields.map (Member.read a), methods := a.methods.map (Member.read a),
    attributes := a.attributes.map (Attribute.read a) }

def tables (a : Assembler) : ClassFile.Tables :=
  { fields := a.fields.map Member.tables, methods := a.methods.map Member.tables }

section Layout
variable (a : Assembler)

theorem layouts_read (xs : List Attribute) :
    Attribute.layouts (xs.map (Attribute.read a)) [] = xs.flatMap a.attributeBytes := by
  induction xs with
  | nil => rfl
  | cons x xs ih =>
    rw [List.map_cons, Attribute.layouts, List.flatMap_cons]
    exact congrArg (a.attributeBytes x ++ ·) ih

theorem counted_read (xs : List Attribute) :
    Attribute.counted (xs.map (Attribute.read a)) [] = a.attributesBytes xs := by
  simp only [Attribute.counted, attributesBytes, count, List.length_map, layouts_read]

theorem entries_table (k : Code) :
    k.table.entries.flatMap Subtype.val = List.replicate (8 * k.exceptionEntries) 0 := by
  simp only [Code.table]
  induction k.exceptionEntries with
  | zero => rfl
  | succ n ih =>
    rw [List.replicate_succ, List.flatMap_cons, ih, List.replicate_append_replicate]
    congr 1
    omega

theorem codeBytes_eq (k : Code) :
    a.codeBytes k = Attribute.codePayload k.maxStack k.maxLocals k.bytes k.table.entries
      (Attribute.counted (k.attributes.map (Attribute.read a)) []) := by
  have hcount : count k.table.entries = Bytes.u2 (UInt16.ofNat k.exceptionEntries) := by
    simp [count, Code.table]
  rw [Attribute.codePayload, entries_table, hcount, counted_read, codeBytes]

theorem attributeBytes_code (k : Code) :
    a.attributeBytes ⟨utf8 "Code", a.codeBytes k⟩ = (k.read a).layout k.table := by
  rw [attributeBytes, codeBytes_eq]
  rfl

theorem counted_member (m : Member) :
    Attribute.counted (m.read a).attributes m.tables =
      a.attributesBytes (a.memberAttributes m) := by
  cases hk : m.code with
  | none =>
    simp only [memberAttributes, Member.read, Member.tables, hk]
    exact counted_read a m.attributes
  | some k =>
    simp only [memberAttributes, Member.read, Member.tables, hk, attributesBytes, Attribute.counted,
      count, List.flatMap_cons, Option.map_some, Option.toList_some, List.singleton_append,
      List.length_cons, List.length_map, Attribute.layouts, List.headD_cons, List.tail_cons,
      layouts_read, attributeBytes_code]

theorem memberBytes_eq (m : Member) : a.memberBytes m = (m.read a).layout m.tables := by
  rw [memberBytes, Member.layout, counted_member]
  rfl

theorem layouts_members (ms : List Member) :
    Member.layouts (ms.map (Member.read a)) (ms.map Member.tables) = ms.flatMap a.memberBytes := by
  induction ms with
  | nil => rfl
  | cons m ms ih =>
    rw [List.map_cons, List.map_cons, Member.layouts, List.flatMap_cons, memberBytes_eq]
    exact congrArg (_ ++ ·) ih

theorem layout_constants (es : List Constant) :
    (es.map RawConstant.of).flatMap (fun c => c.tag :: c.payload) =
      es.flatMap Constant.layout := by
  rw [List.flatMap_map]
  rfl

/-- The bytes of an assembler are the layout of its class, and what was put behind it. -/
theorem bytes_eq_layout {es : List Constant} (hmagic : a.magic = ClassFile.magic)
    (hpool : a.pool = es.map RawConstant.of) :
    a.bytes = (a.classFile es).layout a.tables ++ a.trailing := by
  have hfields := layouts_members a a.fields
  have hmethods := layouts_members a a.methods
  have hattributes := counted_read a a.attributes
  have hconstants := layout_constants es
  simp only [bytes, ClassFile.layout, ClassFile.headLayout, ClassFile.fieldsLayout,
    ClassFile.methodsLayout, classFile, tables, membersBytes, poolBytes, Pool.of, hmagic, hpool,
    hfields, hmethods, hattributes, hconstants, count, List.length_map, List.append_assoc]

end Layout

/-! Sizes. -/

/-- An attribute that is given as bytes is not called `Code`, and its length fits its field. -/
structure Attribute.Fits (x : Attribute) : Prop where
  name : x.name ≠ utf8 "Code"
  info : x.info.length < 2 ^ 32

def Code.size (k : Code) : Nat :=
  12 + k.bytes.length + 8 * k.exceptionEntries + (k.attributes.map fun x => 6 + x.info.length).sum

structure Code.Fits (k : Code) : Prop where
  size : k.size < 2 ^ 32
  entries : k.exceptionEntries < 2 ^ 16
  count : k.attributes.length < 2 ^ 16
  attributes : ∀ x ∈ k.attributes, x.Fits

structure Member.Fits (m : Member) : Prop where
  count : m.code.toList.length + m.attributes.length < 2 ^ 16
  attributes : ∀ x ∈ m.attributes, x.Fits
  code : ∀ k, m.code = some k → k.Fits

/-- What a script gives can be written: texts, lists, tables and payloads fit their fields, and the
constants fit into the pool. -/
structure Sized (own : Bytes) (script : List Operation) : Prop where
  name : own.length < 2 ^ 16
  names : ∀ op ∈ script, op.NamesFit
  pool : (assemble own script).pool.length ≤ 65534
  interfaces : (outline script).interfaces.length < 2 ^ 16
  fields : (outline script).fields.length < 2 ^ 16 ∧ ∀ m ∈ (outline script).fields, m.Fits
  methods : (outline script).methods.length < 2 ^ 16 ∧ ∀ m ∈ (outline script).methods, m.Fits
  attributes : (outline script).attributes.length < 2 ^ 16 ∧
    ∀ x ∈ (outline script).attributes, x.Fits

theorem length_codeBytes (a : Assembler) (k : Code) : (a.codeBytes k).length = k.size := by
  have hattribute (x : Attribute) : (a.attributeBytes x).length = 6 + x.info.length := by
    simp only [attributeBytes, place, length4, List.length_append, Bytes.length_u2,
      Bytes.length_u4]
  simp only [codeBytes, attributesBytes, count, length4, List.length_append, Bytes.length_u2,
    Bytes.length_u4, List.length_replicate, List.length_flatMap, hattribute, Code.size]
  omega

section Fits
variable {a : Assembler} {es : List Constant}

theorem Linked.text_index (h : Linked a es) {s : Bytes} (hs : ∃ i, a.texts.get? s = some i) :
    (Pool.of es).text (a.index s) = .ok s := by
  obtain ⟨i, hi⟩ := hs
  rw [index, hi]
  exact h.texts s i hi

theorem allFit_read (h : Linked a es) (xs : List Attribute) (hnamed : Attribute.Named a.texts xs)
    (hfits : ∀ x ∈ xs, x.Fits) :
    Attribute.AllFit (Pool.of es) (xs.map (Attribute.read a)) [] := by
  induction xs with
  | nil => trivial
  | cons x xs ih =>
    have hx := hfits x List.mem_cons_self
    refine ⟨⟨h.text_index (hnamed x List.mem_cons_self), hx.name, hx.info⟩, ?_⟩
    exact ih (fun y hy => hnamed y (List.mem_cons_of_mem x hy))
      (fun y hy => hfits y (List.mem_cons_of_mem x hy))

theorem fits_code (h : Linked a es) (k : Code) (hcode : ∃ i, a.texts.get? (utf8 "Code") = some i)
    (hnamed : Attribute.Named a.texts k.attributes) (hk : k.Fits) :
    (k.read a).Fits (Pool.of es) k.table := by
  have hsize := length_codeBytes a k
  rw [codeBytes_eq] at hsize
  have hbytes : k.bytes.length ≤ k.size := by
    rw [Code.size]
    omega
  refine ⟨h.text_index hcode, Nat.lt_of_le_of_lt hbytes hk.size, ?_, ?_, ?_, ?_⟩
  · simpa [Code.table] using hk.entries
  · simpa using hk.count
  · rw [show k.table.inner = [] from rfl, hsize]
    exact hk.size
  · exact allFit_read h k.attributes hnamed hk.attributes

theorem fits_member (h : Linked a es) (m : Member) (hnamed : m.Named a.texts) (hm : m.Fits) :
    (m.read a).Fits (Pool.of es) m.tables := by
  have hrest := allFit_read h m.attributes hnamed.attributes hm.attributes
  have hcount := hm.count
  cases hk : m.code with
  | none =>
    simp only [Member.read, Member.tables, hk] at hcount ⊢
    exact ⟨by simpa using hcount, hrest⟩
  | some k =>
    obtain ⟨hcode, hattributes⟩ := hnamed.code k hk
    have hfirst := fits_code h k hcode hattributes (hm.code k hk)
    simp only [Member.read, Member.tables, hk] at hcount ⊢
    refine ⟨?_, hfirst, hrest⟩
    simpa [Nat.add_comm] using hcount

theorem allFit_members (h : Linked a es) (ms : List Member) (hnamed : ∀ m ∈ ms, m.Named a.texts)
    (hfits : ∀ m ∈ ms, m.Fits) :
    Member.AllFit (Pool.of es) (ms.map (Member.read a)) (ms.map Member.tables) := by
  induction ms with
  | nil => trivial
  | cons m ms ih =>
    refine ⟨fits_member h m (hnamed m List.mem_cons_self) (hfits m List.mem_cons_self), ?_⟩
    exact ih (fun x hx => hnamed x (List.mem_cons_of_mem m hx))
      (fun x hx => hfits x (List.mem_cons_of_mem m hx))

theorem classFile_wellFormed {name : Bytes} {script : List Operation} (hs : Sized name script)
    (h : Assembled name (outline script) a es) (hlen : a.pool.length ≤ 65534) :
    (a.classFile es).WellFormed a.major a.tables := by
  have hentries := h.linked.length
  refine ⟨rfl, ?_, h.linked.fits, ?_, ?_, ?_, ?_⟩
  · simp only [classFile, Pool.of, UInt16.toNat_ofNat']
    omega
  · rw [classFile, h.interfaces.length_eq]
    exact hs.interfaces
  · simp only [classFile, tables, h.fields.1, List.length_map]
    exact ⟨hs.fields.1, allFit_members h.linked _ h.fields.2 hs.fields.2⟩
  · simp only [classFile, tables, h.methods.1, List.length_map]
    exact ⟨hs.methods.1, allFit_members h.linked _ h.methods.2 hs.methods.2⟩
  · simp only [classFile, tables, h.attributes.1, List.length_map]
    exact ⟨hs.attributes.1, allFit_read h.linked _ h.attributes.2 hs.attributes.2⟩

end Fits

/-! What is read. -/

def Attribute.Matches (pool : Pool) (given : Attribute) (found : ClassMachine.Attribute) : Prop :=
  ∃ i, found = .other i given.name given.info ∧ pool.text i = .ok given.name

def Code.Matches (pool : Pool) (given : Code) (found : ClassMachine.Attribute) : Prop :=
  ∃ i nested, found = .code i given.maxStack given.maxLocals given.bytes nested ∧
    pool.text i = .ok (utf8 "Code") ∧ List.Forall₂ (Attribute.Matches pool) given.attributes nested

/-- The member that is read for a given one: its code comes first among the attributes. -/
structure Member.Matches (pool : Pool) (given : Member) (found : ClassMachine.Member) : Prop where
  flags : found.flags = ⟨given.flags⟩
  name : found.name pool = .ok given.name
  descriptor : found.descriptor pool = .ok given.descriptor
  attributes : ∃ code rest, found.attributes = code ++ rest ∧
    List.Forall₂ (Code.Matches pool) given.code.toList code ∧
    List.Forall₂ (Attribute.Matches pool) given.attributes rest

structure Outline.Matches (name : Bytes) (o : Outline) (c : ClassFile) : Prop where
  name : c.className = .ok name
  super : c.superName = .ok objectName
  interfaces : List.Forall₂ (fun i n => c.pool.className i = .ok n) c.interfaces o.interfaces
  fields : List.Forall₂ (Member.Matches c.pool) o.fields c.fields
  methods : List.Forall₂ (Member.Matches c.pool) o.methods c.methods
  attributes : List.Forall₂ (Attribute.Matches c.pool) o.attributes c.attributes

section Reading
variable {a : Assembler} {es : List Constant}

theorem matches_attributes (h : Linked a es) {xs : List Attribute}
    (hnamed : Attribute.Named a.texts xs) :
    List.Forall₂ (Attribute.Matches (Pool.of es)) xs (xs.map (Attribute.read a)) := by
  rw [List.forall₂_map_right_iff, List.forall₂_same]
  exact fun x hx => ⟨a.index x.name, rfl, h.text_index (hnamed x hx)⟩

theorem matches_member (h : Linked a es) {m : Member} (hnamed : m.Named a.texts) :
    m.Matches (Pool.of es) (m.read a) := by
  refine ⟨rfl, h.text_index hnamed.name, h.text_index hnamed.descriptor, _, _, rfl, ?_,
    matches_attributes h hnamed.attributes⟩
  cases hk : m.code with
  | none => exact .nil
  | some k =>
    obtain ⟨hcode, hattributes⟩ := hnamed.code k hk
    refine .cons ⟨_, _, rfl, h.text_index hcode, ?_⟩ .nil
    exact matches_attributes h hattributes

theorem matches_members (h : Linked a es) {ms : List Member}
    (hnamed : ∀ m ∈ ms, m.Named a.texts) :
    List.Forall₂ (Member.Matches (Pool.of es)) ms (ms.map (Member.read a)) := by
  rw [List.forall₂_map_right_iff, List.forall₂_same]
  exact fun m hm => matches_member h (hnamed m hm)

theorem superName_of_className {c : ClassFile} {n : Bytes}
    (h : c.pool.className c.superClass = .ok n) : c.superName = .ok n := by
  have hne : c.superClass ≠ 0 := by
    intro h0
    obtain ⟨j, hj, -⟩ := Pool.className_ok_iff.1 h
    rw [h0] at hj
    cases hj
  rw [ClassFile.superName, if_neg hne, h]

theorem matches_classFile {name : Bytes} {o : Outline} (h : Assembled name o a es) :
    o.Matches name (a.classFile es) where
  name := h.this
  super := superName_of_className h.super
  interfaces := h.interfaces
  fields := by
    rw [classFile, h.fields.1]
    exact matches_members h.linked h.fields.2
  methods := by
    rw [classFile, h.methods.1]
    exact matches_members h.linked h.methods.2
  attributes := by
    rw [classFile, h.attributes.1]
    exact matches_attributes h.linked h.attributes.2

end Reading

/-! The anomalies that are reported. -/

/-- The name and the length of an attribute that is reported; nothing for trailing bytes. -/
def about : Diagnostic → Option (Bytes × UInt32)
  | .unhandledAttribute _ name length => some (name, length)
  | .trailingData _ => none

def Attribute.report (x : Attribute) : Option (Bytes × UInt32) :=
  some (x.name, UInt32.ofNat x.info.length)

def Member.unhandled (m : Member) : List Attribute :=
  m.code.toList.flatMap Code.attributes ++ m.attributes

def Outline.unhandled (o : Outline) : List Attribute :=
  o.fields.flatMap Member.unhandled ++ o.methods.flatMap Member.unhandled ++ o.attributes

section Reports
variable (a : Assembler)

theorem notes_attributes (xs : List Attribute) (offset : Nat) :
    (Attribute.notesAll (xs.map (Attribute.read a)) [] offset).map about =
      xs.map Attribute.report := by
  induction xs generalizing offset with
  | nil => rfl
  | cons x xs ih =>
    rw [List.map_cons, List.map_cons, Attribute.notesAll, List.map_append, List.tail_nil, ih]
    rfl

theorem notes_member (m : Member) (offset : Nat) :
    ((m.read a).notes m.tables offset).map about = m.unhandled.map Attribute.report := by
  cases hk : m.code with
  | none =>
    simp only [Member.notes, Member.read, Member.tables, Member.unhandled, hk]
    exact notes_attributes a m.attributes _
  | some k =>
    simp only [Member.notes, Member.read, Member.tables, Member.unhandled, hk, Option.map_some,
      Option.toList_some, List.singleton_append, List.flatMap_cons, List.flatMap_nil,
      List.append_nil, List.map_append, Attribute.notesAll, List.tail_cons, notes_attributes]
    exact congrArg (· ++ _) (notes_attributes a k.attributes _)

theorem notes_members (ms : List Member) (offset : Nat) :
    (Member.notesAll (ms.map (Member.read a)) (ms.map Member.tables) offset).map about =
      (ms.flatMap Member.unhandled).map Attribute.report := by
  induction ms generalizing offset with
  | nil => rfl
  | cons m ms ih =>
    rw [List.map_cons, List.map_cons, Member.notesAll, List.map_append, List.flatMap_cons,
      List.map_append, List.tail_cons, ih]
    exact congrArg (· ++ _) (notes_member a m offset)

theorem notes_classFile (es : List Constant) (offset : Nat) :
    ((a.classFile es).notes a.tables offset).map about =
      (a.fields.flatMap Member.unhandled ++ a.methods.flatMap Member.unhandled ++
        a.attributes).map Attribute.report := by
  simp only [ClassFile.notes, classFile, tables, List.map_append, notes_members, notes_attributes]

end Reports

/-- The bytes that a script leaves are read as the class that it describes, with the attributes
given as bytes and the bytes behind the class reported; a place denotes what it was given for. -/
theorem parse_assemble (name : Bytes) (script : List Operation) (minor major flags : UInt16)
    (h : Sized name script) :
    let a := { assemble name script with minor, major, flags }
    ∃ c ds, ClassFile.parse major a.bytes = (.ok c, ds) ∧
      c.minor = minor ∧ c.major = major ∧ c.flags = ⟨flags⟩ ∧
      (outline script).Matches name c ∧
      (∀ x ∈ places (start name) script, x.1.Denotes c.pool x.2) ∧
      ds.map about = (outline script).unhandled.map Attribute.report ++
        if (outline script).trailing = [] then [] else [none] := by
  intro a
  obtain ⟨es, hes, hplaces⟩ := assemble_assembled name script h.name h.names h.pool
  have ha : Assembled name (outline script) a es :=
    { hes with linked := hes.linked.transfer rfl rfl rfl }
  have hbytes := bytes_eq_layout a ha.magic ha.linked.pool
  have hparse := (ClassFile.parse_eq_iff major a.bytes (a.classFile es) _).2
    ⟨a.tables, a.trailing, classFile_wellFormed h ha h.pool, hbytes, rfl⟩
  refine ⟨a.classFile es, _, hparse, rfl, rfl, rfl, matches_classFile ha, hplaces, ?_⟩
  rw [List.map_append, notes_classFile, ha.trailing, ha.fields.1, ha.methods.1, ha.attributes.1]
  refine congrArg (_ ++ ·) ?_
  by_cases htrailing : (outline script).trailing = []
  · rw [if_pos htrailing, if_pos htrailing, List.map_nil]
  · rw [if_neg htrailing, if_neg htrailing]
    rfl

/-- A class with an interface, a field, a method with code, constants of its own and bytes behind
it. The code has an exception table and an attribute, which has the name of the field's. -/
def sample : List Operation :=
  let note : Attribute := { name := utf8 "Note", info := [1, 2, 3] }
  let code : Code := { maxStack := 2, maxLocals := 1, bytes := [0x2a, 0xb1], exceptionEntries := 1,
                       attributes := [note] }
  [.interface (utf8 "Shape"), .string (utf8 "Sample"),
    .field { name := utf8 "x", descriptor := utf8 "I", attributes := [note] },
    .raw 8 [0, 2],
    .method { flags := 9, name := utf8 "run", descriptor := utf8 "()V", code := some code },
    .classAttribute { name := utf8 "SourceFile", info := [0, 1] }, .trailing [7]]

theorem sample_sized : Sized (utf8 "Sample") sample where
  name := by decide
  names := by
    simp only [sample, List.forall_mem_cons, Operation.NamesFit]
    refine ⟨by decide, by decide, ⟨by decide, by decide, by decide, nofun⟩,
      ⟨.string 2, trivial, rfl, rfl⟩, ⟨by decide, by decide, by decide, ?_⟩, by decide, trivial,
      nofun⟩
    rintro k ⟨⟩
    decide
  pool := by decide +kernel
  interfaces := by decide
  fields := by
    refine ⟨by decide, List.forall_mem_singleton.2 ⟨by decide, ?_, nofun⟩⟩
    exact List.forall_mem_singleton.2 ⟨by decide, by decide⟩
  methods := by
    refine ⟨by decide, List.forall_mem_singleton.2 ⟨by decide, nofun, ?_⟩⟩
    rintro k ⟨⟩
    refine ⟨by decide, by decide, by decide, ?_⟩
    exact List.forall_mem_singleton.2 ⟨by decide, by decide⟩
  attributes := ⟨by decide, List.forall_mem_singleton.2 ⟨by decide, by decide⟩⟩

theorem sample_read_back :
    Sized (utf8 "Sample") sample ∧
      ∃ c ds, ClassFile.parse 50
          { assemble (utf8 "Sample") sample with minor := 3, major := 50, flags := 1 }.bytes =
        (.ok c, ds) ∧
      c.minor = 3 ∧ c.major = 50 ∧ c.flags = ⟨1⟩ ∧ (outline sample).Matches (utf8 "Sample") c ∧
      (∀ x ∈ places (start (utf8 "Sample")) sample, x.1.Denotes c.pool x.2) ∧
      ds.map about = (outline sample).unhandled.map Attribute.report ++
        if (outline sample).trailing = [] then [] else [none] :=
  ⟨sample_sized, parse_assemble (utf8 "Sample") sample 3 50 1 sample_sized⟩

end ClassMachine.Assembler
