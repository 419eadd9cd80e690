import ClassMachine.Proofs.ClassFile.Grammar
import ClassMachine.Proofs.Snapshot.RoundTrip

/-! Classes recovered from their snapshots, with any library that writes the maps of snapshots and
reads what it has written (`Codec.Faithful`). What a snapshot has taken from a class
(`ClassFile.Content`) comes back from its bytes, so the bytes tell apart any two classes that differ
in it. -/
namespace ClassMachine

theorem Attribute.fits_of_mem {pool : Pool} {as : List Attribute} {ts : List ExceptionTables}
    (h : AllFit pool as ts) {a : Attribute} (ha : a ∈ as) : ∃ t, a.Fits pool t := by
  induction as generalizing ts with
  | nil => cases ha
  | cons b as ih =>
    rcases List.mem_cons.1 ha with rfl | ha
    · exact ⟨_, h.1⟩
    · exact ih h.2 ha

theorem Member.fits_of_mem {pool : Pool} {ms : List Member} {ts : List (List ExceptionTables)}
    (h : AllFit pool ms ts) {m : Member} (hm : m ∈ ms) : ∃ t, m.Fits pool t := by
  induction ms generalizing ts with
  | nil => cases hm
  | cons n ms ih =>
    rcases List.mem_cons.1 hm with rfl | hm
    · exact ⟨_, h.1⟩
    · exact ih h.2 hm

theorem Member.code_length_lt {pool : Pool} {m : Member} {ts : List ExceptionTables}
    (h : m.Fits pool ts) {k : Code} (hk : m.code? = some k) : k.bytes.length < 2 ^ 32 := by
  obtain ⟨a, ha, hcode⟩ := List.exists_of_findSome?_eq_some hk
  obtain ⟨t, hfits⟩ := Attribute.fits_of_mem h.2 ha
  cases a with
  | code nameIndex maxStack maxLocals bytes attributes =>
    cases hcode
    exact hfits.2.1
  | other nameIndex name info => cases hcode

/-! What a snapshot takes from a class. -/

namespace ClassFile

structure Signature where
  flags : AccessFlags
  nameIndex : UInt16
  descriptorIndex : UInt16
deriving DecidableEq

structure Body where
  maxStack : UInt16
  maxLocals : UInt16
  bytes : Bytes
deriving DecidableEq

/-- Everything in a class but its attributes; of those, the first code of each method. -/
structure Content where
  minor : UInt16
  major : UInt16
  constants : List Constant
  flags : AccessFlags
  thisClass : UInt16
  superClass : UInt16
  interfaces : List UInt16
  fields : List Signature
  methods : List (Signature × Option Body)
deriving DecidableEq

def signature (m : Member) : Signature := ⟨m.flags, m.nameIndex, m.descriptorIndex⟩

def body (k : Code) : Body := ⟨k.maxStack, k.maxLocals, k.bytes⟩

def content (c : ClassFile) : Content where
  minor := c.minor
  major := c.major
  constants := c.pool.entries
  flags := c.flags
  thisClass := c.thisClass
  superClass := c.superClass
  interfaces := c.interfaces
  fields := c.fields.map signature
  methods := c.methods.map fun m => (signature m, m.code?.map body)

end ClassFile

namespace Snapshot
open ClassFile (Content signature body)

section Recovery
variable {c : ClassFile}

def Constant.constant? (k : Constant) : Option ClassMachine.Constant :=
  match k.tag with
  | 1 => some (.utf8 k.text)
  | 7 => some (.cls k.a)
  | 8 => some (.string k.a)
  | 9 => some (.ref .field k.a k.b)
  | 10 => some (.ref .method k.a k.b)
  | 11 => some (.ref .interfaceMethod k.a k.b)
  | 12 => some (.nameAndType k.a k.b)
  | _ => none

def Member.signature (m : Member) : ClassFile.Signature :=
  ⟨⟨m.flags⟩, m.nameIndex, m.descriptorIndex⟩

def Code.body (k : Code) : ClassFile.Body := ⟨k.maxStack, k.maxLocals, k.bytes.getD []⟩

def content? (s : Snapshot) : Option Content := do
  let constants ← (s.constants.getD []).mapM Constant.constant?
  return { minor := s.minor, major := s.major, constants, flags := ⟨s.flags⟩,
           thisClass := s.thisClass, superClass := s.superClass,
           interfaces := s.interfaces.getD [],
           fields := (s.fields.getD []).map Member.signature,
           methods := (s.methods.getD []).map fun m => (m.signature, m.code.map Code.body) }

/-! Snapshots of which nothing is missing. A list that is missing counts as an empty one. -/

def Code.filled (c : Code) : Code := { c with bytes := some (c.bytes.getD []) }

def Member.filled (m : Member) : Member := { m with code := m.code.map Code.filled }

def filled (s : Snapshot) : Snapshot :=
  { s with
    interfaces := some (s.interfaces.getD [])
    constants := some (s.constants.getD [])
    fields := some ((s.fields.getD []).map Member.filled)
    methods := some ((s.methods.getD []).map Member.filled) }

theorem content?_filled (s : Snapshot) : s.filled.content? = s.content? := by
  have hcode (m : Member) : m.filled.code.map Code.body = m.code.map Code.body := Option.map_map ..
  simp only [content?, filled, Option.getD_some, List.map_map, Function.comp_def, hcode]
  rfl

theorem constants_filled (s : Snapshot) :
    s.filled.constants.getD [] = s.constants.getD [] := rfl

theorem some?_getD {α : Type} (l : List α) : (some? l).getD [] = l := by
  cases l <;> rfl

theorem Constant.constant?_of (index : UInt16) (k : ClassMachine.Constant) :
    (Constant.of index k).constant? = some k := by
  cases k with
  | ref kind a b => cases kind <;> rfl
  | _ => rfl

theorem constants_recovered (index : Nat → UInt16) (entries : List ClassMachine.Constant) :
    (entries.mapIdx fun i k => Constant.of (index i) k).mapM Constant.constant? = some entries := by
  -- The constant comes back whatever index it has.
  induction entries generalizing index with
  | nil => rfl
  | cons k entries ih =>
    rw [List.mapIdx_cons, List.mapM_cons, Constant.constant?_of, ih fun i => index (i + 1)]
    rfl

theorem content?_of (c : ClassFile) : (of c).content? = some c.content := by
  have hbody (m : ClassMachine.Member) :
      (Member.of m m.code?).code.map Code.body = m.code?.map body := Option.map_map ..
  simp only [content?, of, some?_getD, constants_recovered fun i => UInt16.ofNat (i + 1),
    Option.getD_some, List.map_map, Function.comp_def, hbody]
  rfl

theorem Constant.index_of (index : UInt16) (k : ClassMachine.Constant) :
    (Constant.of index k).index = index := by
  cases k <;> rfl

theorem Constant.text_of_fits (index : UInt16) {k : ClassMachine.Constant} (h : k.Fits) :
    (Constant.of index k).text.length < 2 ^ 16 := by
  cases k with
  | utf8 text => exact h
  | _ => exact Nat.two_pow_pos 16

theorem fits_of {want : UInt16} {t : ClassFile.Tables} (h : c.WellFormed want t) : (of c).Fits := by
  have hconstants : c.pool.entries.length < 2 ^ 16 := by
    have hcount := c.pool.count.toNat_lt
    have hentries := h.entries
    omega
  refine ⟨h.interfaces, ?_, ?_, ?_, ?_, ?_, ?_⟩
  · simpa [of, some?_getD] using hconstants
  · simpa [of, some?_getD] using h.fields.1
  · simpa [of, some?_getD] using h.methods.1
  · intro k hk
    simp only [of, some?_getD, List.mem_mapIdx] at hk
    obtain ⟨i, hi, rfl⟩ := hk
    exact Constant.text_of_fits _ (h.constants _ (List.getElem_mem hi))
  · intro m hm k hk
    simp only [of, some?_getD, List.mem_map] at hm
    obtain ⟨n, -, rfl⟩ := hm
    cases hk
  · intro m hm k hk
    simp only [of, some?_getD, List.mem_map] at hm
    obtain ⟨n, hn, rfl⟩ := hm
    obtain ⟨ts, hfits⟩ := ClassMachine.Member.fits_of_mem h.methods.2 hn
    obtain ⟨code, hcode, rfl⟩ := Option.map_eq_some_iff.1 hk
    exact ClassMachine.Member.code_length_lt hfits hcode

theorem indices_of {want : UInt16} {t : ClassFile.Tables} (h : c.WellFormed want t) :
    ((of c).constants.getD []).map (fun k => k.index.toNat) =
      List.range' 1 (c.pool.count.toNat - 1) := by
  have hcount := c.pool.count.toNat_lt
  rw [← h.entries]
  have hentries := h.entries
  simp only [of, some?_getD]
  refine List.ext_getElem (by simp) fun i hi _ => ?_
  have hbound : i + 1 < 2 ^ 16 := by
    simp only [List.length_map, List.length_mapIdx] at hi
    omega
  simp only [List.getElem_map, List.getElem_mapIdx, Constant.index_of, List.getElem_range',
    Nat.one_mul]
  rw [UInt16.toNat_ofNat_of_lt' hbound, Nat.add_comm]

/-- What is expected of a library for snapshots no larger than a class file: it writes them, and
reads back one with the same map. Whether an empty list comes back as a missing one is left open. -/
structure Codec.Faithful (k : Codec) : Prop where
  writes : ∀ s : Snapshot, s.Fits → ∃ b, k.marshal s = .ok b
  reads : ∀ (s : Snapshot) (b : Bytes), s.Fits → k.marshal s = .ok b →
    ∃ s', k.unmarshal b = .ok s' ∧ s'.filled.toItem = s.filled.toItem

/-- The fields that the map leaves out are no loss. -/
theorem toItem_injective {s s' : Snapshot} (h : s.toItem = s'.toItem) : s = s' := by
  have hs := ofItem_toItem s
  rw [h, ofItem_toItem s'] at hs
  exact (Option.some.inj hs).symm

theorem Codec.Faithful.decode_encode {k : Codec} (hk : k.Faithful) {s : Snapshot} (h : s.Fits) :
    ∃ b s', k.encode s = .ok b ∧ k.decode b = .ok s' ∧ s'.filled = s.filled := by
  obtain ⟨b, hb⟩ := hk.writes s h
  obtain ⟨s', hread, hmap⟩ := hk.reads s b h hb
  refine ⟨b, s', hb, ?_, toItem_injective hmap⟩
  rw [Codec.decode, hread]

theorem content?_of_filled {s : Snapshot} (h : s.filled = (of c).filled) :
    s.content? = some c.content := by
  rw [← content?_filled s, h, content?_filled, content?_of]

/-- With any faithful library the snapshot of a class that was read is written and read back with
the content of the class, so its bytes tell apart classes that differ in their content. -/
theorem snapshot_recovers_class {k : Codec} (hk : k.Faithful) {want : UInt16} {data : Bytes}
    {c : ClassFile} (h : (ClassFile.parse want data).1 = .ok c) :
    ∃ b s, k.encode (of c) = .ok b ∧ k.decode b = .ok s ∧ s.filled = (of c).filled ∧
      (s.constants.getD []).map (fun x => x.index.toNat) =
        List.range' 1 (c.pool.count.toNat - 1) ∧
      s.content? = some c.content ∧
      ∀ (want' : UInt16) (data' : Bytes) (d : ClassFile),
        (ClassFile.parse want' data').1 = .ok d → k.encode (of d) = .ok b →
        d.content = c.content := by
  have hwf {want : UInt16} {data : Bytes} {c : ClassFile}
      (h : (ClassFile.parse want data).1 = .ok c) : ∃ t, c.WellFormed want t := by
    obtain ⟨t, trailing, hwf, -, -⟩ := (ClassFile.parse_eq_iff want data c _).1 (Prod.ext h rfl)
    exact ⟨t, hwf⟩
  obtain ⟨t, hc⟩ := hwf h
  obtain ⟨b, s, hb, hs, hfilled⟩ := hk.decode_encode (fits_of hc)
  have hindices := indices_of hc
  rw [← constants_filled (of c), ← hfilled, constants_filled] at hindices
  have hcontent := content?_of_filled hfilled
  refine ⟨b, s, hb, hs, hfilled, hindices, hcontent, fun want' data' d hd hbytes => ?_⟩
  obtain ⟨t', hd'⟩ := hwf hd
  obtain ⟨b', s', hb', hs', hfilled'⟩ := hk.decode_encode (fits_of hd')
  -- the same bytes are read as one snapshot
  cases hbytes.symm.trans hb'
  cases hs.symm.trans hs'
  exact Option.some.inj ((content?_of_filled hfilled').symm.trans hcontent)

theorem cbor_faithful : cbor.Faithful where
  writes s _ := ⟨s.encode, rfl⟩
  reads s b hs hb := by
    cases hb
    refine ⟨s, ?_, rfl⟩
    simp only [cbor, decode_encode hs]

/-- All kinds of constants, with indices of zero and a text without bytes, and a method with the
given attributes. -/
def assorted (attributes : List Attribute) : ClassFile :=
  { major := 50, superClass := 3, interfaces := [0, 3],
    pool :=
      { count := 9,
        entries := [.utf8 (utf8 "Code"), .utf8 [], .cls 0, .string 0, .ref .field 0 0,
          .ref .method 0 8, .ref .interfaceMethod 8 0, .nameAndType 0 0] },
    fields := [{ flags := ⟨0⟩, nameIndex := 2, descriptorIndex := 0, attributes := [] }],
    methods := [{ flags := ⟨0x400⟩, nameIndex := 1, descriptorIndex := 2, attributes }] }

theorem assorted_read (attributes : List Attribute) (hlength : attributes.length < 2 ^ 16)
    (h : Attribute.AllFit (assorted []).pool attributes []) :
    (ClassFile.parse 50 ((assorted attributes).layout {})).1 = .ok (assorted attributes) := by
  have hname : (utf8 "Code").length < 2 ^ 16 := by decide
  have hwf : (assorted attributes).WellFormed 50 {} := by
    refine ⟨rfl, rfl, ?_, show 2 < 2 ^ 16 by decide, ⟨show 1 < 2 ^ 16 by decide, ?_⟩,
      ⟨show 1 < 2 ^ 16 by decide, ?_⟩, ⟨Nat.two_pow_pos 16, trivial⟩⟩
    · simpa [assorted, ClassMachine.Constant.Fits] using hname
    · exact ⟨⟨Nat.two_pow_pos 16, trivial⟩, trivial⟩
    · exact ⟨⟨hlength, h⟩, trivial⟩
  rw [(ClassFile.parse_eq_iff 50 _ _ _).2 ⟨{}, [], hwf, (List.append_nil _).symm, rfl⟩]

/-- The first code of a method counts, and an empty one is not taken for a missing one. -/
theorem assorted_recovered :
    ∃ b s, cbor.encode (of (assorted [.code 1 0 0 [] [], .code 1 2 1 [0xB1] []])) = .ok b ∧
      cbor.decode b = .ok s ∧ s.content? = some (assorted [.code 1 0 0 [] []]).content ∧
      cbor.encode (of (assorted [])) ≠ .ok b := by
  have hname : (assorted []).pool.text 1 = .ok (utf8 "Code") := rfl
  have hread := assorted_read [.code 1 0 0 [] [], .code 1 2 1 [0xB1] []]
    (by decide) ⟨⟨hname, by decide, by decide, by decide, by decide, trivial⟩,
      ⟨hname, by decide, by decide, by decide, by decide, trivial⟩, trivial⟩
  obtain ⟨b, s, hb, hs, -, -, hcontent, hagree⟩ := snapshot_recovers_class cbor_faithful hread
  refine ⟨b, s, hb, hs, hcontent, fun hbytes => ?_⟩
  have hsame := hagree 50 _ _ (assorted_read [] (by decide) trivial) hbytes
  exact absurd hsame (by decide)

end Recovery

end Snapshot

end ClassMachine
