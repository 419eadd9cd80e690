import Mathlib.Data.List.Forall2
import ClassMachine.Proofs.ClassFile.Grammar

/-! Where the anomalies of a class file are. Every attribute that is kept as bytes has a note, in
the order of the file, and the note points at the payload: `Covers` says so of a stretch of the
input, and goes from two stretches to both of them one after the other. Bytes behind the class have
one note, which does not point at the first of them but behind it. Main statements:
`unhandled_attributes_located` and `trailing_note_past_first_byte`. -/
namespace ClassMachine
open Assembler (count length4)

structure RawAttribute where
  nameIndex : UInt16
  name : Bytes
  info : Bytes

namespace Attribute

mutual

/-- The attribute if it is kept as bytes, and those inside it if it is a Code attribute. -/
def raw : Attribute → List RawAttribute
  | .code _ _ _ _ attributes => rawAll attributes
  | .other nameIndex name info => [{ nameIndex, name, info }]

def rawAll : List Attribute → List RawAttribute
  | [] => []
  | a :: as => raw a ++ rawAll as

end

end Attribute

def ClassFile.raw (c : ClassFile) : List RawAttribute :=
  (c.fields.flatMap fun m => Attribute.rawAll m.attributes) ++
    (c.methods.flatMap fun m => Attribute.rawAll m.attributes) ++ Attribute.rawAll c.attributes

/-- The note is about the attribute, and its offset is where the payload begins in the input: right
behind the name index and the length. -/
structure Diagnostic.PointsAt (data : Bytes) (d : Diagnostic) (a : RawAttribute) : Prop where
  note : d = .unhandledAttribute d.offset a.name (UInt32.ofNat a.info.length)
  fits : a.info.length < 2 ^ 32
  within : d.offset + a.info.length ≤ data.length
  header : Bytes.u2 a.nameIndex ++ Bytes.u4 (UInt32.ofNat a.info.length) <:+ data.take d.offset
  payload : a.info <+: data.drop d.offset

/-- The notes of a stretch of the input between two offsets, with the attributes they are about. -/
structure Covers (data : Bytes) (lo hi : Nat) (ds : List Diagnostic) (as : List RawAttribute) :
    Prop where
  le : lo ≤ hi
  points : List.Forall₂ (Diagnostic.PointsAt data) ds as
  between : ∀ d ∈ ds, lo < d.offset ∧ d.offset ≤ hi
  increasing : ds.Pairwise fun d e => d.offset < e.offset

section Stretches
variable {data front back : Bytes} {lo mid hi : Nat} {ds es : List Diagnostic}
  {as bs : List RawAttribute}

theorem Covers.nil (h : lo ≤ hi) : Covers data lo hi [] [] :=
  ⟨h, .nil, by simp, .nil⟩

theorem Covers.append (h : Covers data lo mid ds as) (h' : Covers data mid hi es bs) :
    Covers data lo hi (ds ++ es) (as ++ bs) where
  le := Nat.le_trans h.le h'.le
  points := List.rel_append h.points h'.points
  between := by
    intro d hd
    rcases List.mem_append.1 hd with hd | hd
    · exact ⟨(h.between d hd).1, Nat.le_trans (h.between d hd).2 h'.le⟩
    · exact ⟨Nat.lt_of_le_of_lt h.le (h'.between d hd).1, (h'.between d hd).2⟩
  increasing := List.pairwise_append.2 ⟨h.increasing, h'.increasing, fun d hd e he =>
    Nat.lt_of_le_of_lt (h.between d hd).2 (h'.between e he).1⟩

theorem Covers.widen {lo' hi' : Nat} (h : Covers data lo hi ds as) (hlo : lo' ≤ lo)
    (hhi : hi ≤ hi') : Covers data lo' hi' ds as := by
  have hright : Covers data lo hi' (ds ++ []) (as ++ []) := h.append (Covers.nil hhi)
  rw [List.append_nil, List.append_nil] at hright
  exact (Covers.nil hlo).append hright

theorem Covers.unhandled (h : Covers data lo hi ds as) :
    ∀ d ∈ ds, d.kind = "unhandled_attribute" := by
  have hkinds : List.Forall₂
      (fun d a => d.kind = "unhandled_attribute" ∧ d.PointsAt data a) ds as := by
    refine h.points.imp fun d a hpoints => ⟨?_, hpoints⟩
    rw [hpoints.note]
    rfl
  exact ((List.forall₂_and_left ds as).1 hkinds).1

theorem covers_other {nameIndex : UInt16} {name info : Bytes} (hinfo : info.length < 2 ^ 32)
    (hdata : data = front ++ (Bytes.u2 nameIndex ++ length4 info ++ info) ++ back) :
    Covers data front.length (front.length + 6 + info.length)
      [.unhandledAttribute (front.length + 6) name (UInt32.ofNat info.length)]
      [{ nameIndex, name, info }] := by
  let header : Bytes := Bytes.u2 nameIndex ++ Bytes.u4 (UInt32.ofNat info.length)
  have hsplit : data = (front ++ header) ++ (info ++ back) := by
    rw [hdata]
    simp only [header, length4, List.append_assoc]
  have hoffset : (front ++ header).length = front.length + 6 := by simp [header]
  have hpoints : Diagnostic.PointsAt data
      (.unhandledAttribute (front.length + 6) name (UInt32.ofNat info.length))
      { nameIndex, name, info } := by
    refine ⟨rfl, hinfo, ?_, ?_, ?_⟩
    · have hlength : data.length = front.length + 6 + (info ++ back).length := by
        rw [hsplit, ← hoffset, List.length_append]
      rw [hlength, List.length_append]
      exact Nat.add_le_add_left (Nat.le_add_right _ _) _
    · change header <:+ data.take (front.length + 6)
      rw [hsplit, ← hoffset, List.take_left]
      exact List.suffix_append front header
    · change info <+: data.drop (front.length + 6)
      rw [hsplit, ← hoffset, List.drop_left]
      exact List.prefix_append info back
  refine ⟨by omega, .cons hpoints .nil, ?_, List.pairwise_singleton _ _⟩
  intro d hd
  rw [List.mem_singleton.1 hd]
  exact ⟨Nat.lt_add_of_pos_right (by decide), Nat.le_add_right _ _⟩

end Stretches

namespace Attribute

mutual

theorem covers_notes : ∀ (a : Attribute) (t : ExceptionTables) {pool : Pool}
    {data front back : Bytes}, a.Fits pool t → data = front ++ a.layout t ++ back →
    Covers data front.length (front ++ a.layout t).length (a.notes t front.length) a.raw
  | .code nameIndex maxStack maxLocals bytes attributes, t, pool, data, front, back => by
    intro hfits hdata
    obtain ⟨-, -, -, -, -, hinside⟩ := hfits
    -- the attributes inside come last, and there are no notes before them
    let payload := codePayload maxStack maxLocals bytes t.entries (counted attributes t.inner)
    let before : Bytes := Bytes.u2 nameIndex ++ length4 payload ++ Bytes.u2 maxStack ++
      Bytes.u2 maxLocals ++ length4 bytes ++ bytes ++ count t.entries ++
      t.entries.flatMap Subtype.val ++ count attributes
    have hlayout : front ++ layout (.code nameIndex maxStack maxLocals bytes attributes) t =
        (front ++ before) ++ layouts attributes t.inner := by
      simp only [layout, before, payload, codePayload, counted, List.append_assoc]
    have hbefore : (front ++ before).length =
        front.length + 14 + bytes.length + 2 + 8 * t.entries.length + 2 := by
      simp only [before, length4, count, List.length_append, Bytes.length_u2, Bytes.length_u4,
        ClassFile.Parser.length_entries]
      omega
    rw [hlayout] at hdata ⊢
    rw [notes, raw, ← hbefore]
    exact (covers_notesAll attributes t.inner hinside hdata).widen (by simp) (Nat.le_refl _)
  | .other nameIndex name info, t, pool, data, front, back => by
    intro hfits hdata
    refine (covers_other hfits.2.2 hdata).widen (Nat.le_refl _) ?_
    simp only [layout, length4, List.length_append, Bytes.length_u2, Bytes.length_u4]
    omega

theorem covers_notesAll : ∀ (as : List Attribute) (ts : List ExceptionTables) {pool : Pool}
    {data front back : Bytes}, AllFit pool as ts → data = front ++ layouts as ts ++ back →
    Covers data front.length (front ++ layouts as ts).length (notesAll as ts front.length)
      (rawAll as)
  | [], ts, pool, data, front, back => fun _ _ => Covers.nil (by simp)
  | a :: as, ts, pool, data, front, back => by
    intro hfit hdata
    have hlayouts : front ++ layouts (a :: as) ts =
        (front ++ a.layout (ts.headD {})) ++ layouts as ts.tail := by
      rw [layouts, List.append_assoc]
    have hfirst : data = front ++ a.layout (ts.headD {}) ++ (layouts as ts.tail ++ back) := by
      rw [hdata, hlayouts, List.append_assoc]
    rw [hlayouts] at hdata ⊢
    rw [notesAll, rawAll, ← List.length_append]
    exact (covers_notes a (ts.headD {}) hfit.1 hfirst).append
      (covers_notesAll as ts.tail hfit.2 hdata)

end

theorem covers_counted {as : List Attribute} {ts : List ExceptionTables} {pool : Pool}
    {data front : Bytes} (back : Bytes) (hfit : AllFit pool as ts)
    (hdata : data = front ++ counted as ts ++ back) :
    Covers data front.length (front ++ counted as ts).length (notesAll as ts (front.length + 2))
      (rawAll as) := by
  have hcounted : front ++ counted as ts = (front ++ count as) ++ layouts as ts := by
    rw [counted, List.append_assoc]
  have hcount : (front ++ count as).length = front.length + 2 := by simp [count]
  rw [hcounted] at hdata ⊢
  rw [← hcount]
  exact (covers_notesAll as ts hfit hdata).widen (by simp) (Nat.le_refl _)

end Attribute

namespace Member

theorem covers_notes {m : Member} {ts : List ExceptionTables} {pool : Pool}
    {data front back : Bytes} (hfit : m.Fits pool ts)
    (hdata : data = front ++ m.layout ts ++ back) :
    Covers data front.length (front ++ m.layout ts).length (m.notes ts front.length)
      (Attribute.rawAll m.attributes) := by
  let before : Bytes :=
    Bytes.u2 m.flags.bits ++ Bytes.u2 m.nameIndex ++ Bytes.u2 m.descriptorIndex
  have hlayout : front ++ m.layout ts = (front ++ before) ++ Attribute.counted m.attributes ts := by
    simp only [layout, before, List.append_assoc]
  have hbefore : (front ++ before).length + 2 = front.length + 8 := by simp [before]
  rw [hlayout] at hdata ⊢
  rw [notes, ← hbefore]
  exact (Attribute.covers_counted back hfit.2 hdata).widen (by simp) (Nat.le_refl _)

theorem covers_notesAll {ms : List Member} {ts : List (List ExceptionTables)} {pool : Pool}
    {data front back : Bytes} (hfit : AllFit pool ms ts)
    (hdata : data = front ++ layouts ms ts ++ back) :
    Covers data front.length (front ++ layouts ms ts).length (notesAll ms ts front.length)
      (ms.flatMap fun m => Attribute.rawAll m.attributes) := by
  induction ms generalizing ts front with
  | nil => exact Covers.nil (by simp)
  | cons m ms ih =>
    have hlayouts : front ++ layouts (m :: ms) ts =
        (front ++ m.layout (ts.headD [])) ++ layouts ms ts.tail := by
      rw [layouts, List.append_assoc]
    have hfirst : data = front ++ m.layout (ts.headD []) ++ (layouts ms ts.tail ++ back) := by
      rw [hdata, hlayouts, List.append_assoc]
    rw [hlayouts] at hdata ⊢
    rw [notesAll, List.flatMap_cons, ← List.length_append]
    exact (covers_notes hfit.1 hfirst).append (ih hfit.2 hdata)

theorem covers_counted {ms : List Member} {ts : List (List ExceptionTables)} {pool : Pool}
    {data front : Bytes} (back : Bytes) (hfit : AllFit pool ms ts)
    (hdata : data = front ++ (count ms ++ layouts ms ts) ++ back) :
    Covers data front.length (front ++ (count ms ++ layouts ms ts)).length
      (notesAll ms ts (front.length + 2)) (ms.flatMap fun m => Attribute.rawAll m.attributes) := by
  have hcount : (front ++ count ms).length = front.length + 2 := by simp [count]
  rw [← List.append_assoc front] at hdata ⊢
  rw [← hcount]
  exact (covers_notesAll hfit hdata).widen (by simp) (Nat.le_refl _)

end Member

namespace ClassFile
variable {want : UInt16} {c : ClassFile} {t : Tables}

theorem covers_layout (hwf : c.WellFormed want t) (trailing : Bytes) :
    Covers (c.layout t ++ trailing) 0 (c.layout t).length (c.notes t 0) c.raw := by
  let data := c.layout t ++ trailing
  let upToFields := c.headLayout ++ c.fieldsLayout t
  let upToMethods := upToFields ++ c.methodsLayout t
  let attributes := Attribute.counted c.attributes t.attributes
  have hfields : Covers data c.headLayout.length upToFields.length
      (Member.notesAll c.fields t.fields (c.headLayout.length + 2))
      (c.fields.flatMap fun m => Attribute.rawAll m.attributes) := by
    refine Member.covers_counted (c.methodsLayout t ++ attributes ++ trailing) hwf.fields.2 ?_
    simp only [data, attributes, layout, fieldsLayout, List.append_assoc]
  have hmethods : Covers data upToFields.length upToMethods.length
      (Member.notesAll c.methods t.methods (upToFields.length + 2))
      (c.methods.flatMap fun m => Attribute.rawAll m.attributes) := by
    refine Member.covers_counted (attributes ++ trailing) hwf.methods.2 ?_
    simp only [data, attributes, upToFields, layout, methodsLayout, List.append_assoc]
  have hattributes : Covers data upToMethods.length (upToMethods ++ attributes).length
      (Attribute.notesAll c.attributes t.attributes (upToMethods.length + 2))
      (Attribute.rawAll c.attributes) := by
    refine Attribute.covers_counted trailing hwf.attributes.2 ?_
    simp only [data, upToFields, upToMethods, layout, List.append_assoc]
  have hnotes : c.notes t 0 =
      Member.notesAll c.fields t.fields (c.headLayout.length + 2) ++
        Member.notesAll c.methods t.methods (upToFields.length + 2) ++
        Attribute.notesAll c.attributes t.attributes (upToMethods.length + 2) := by
    simp only [notes, upToFields, upToMethods, List.length_append, Nat.zero_add]
  rw [hnotes]
  exact ((hfields.append hmethods).append hattributes).widen (Nat.zero_le _) (Nat.le_refl _)

/-- The notes on attributes are those on the attributes that are kept as bytes, one for each in the
order of the file, and each points at the payload of its attribute. -/
theorem unhandled_attributes_located (want : UInt16) (data : Bytes) (c : ClassFile)
    (ds : List Diagnostic) (h : parse want data = (.ok c, ds)) :
    let notes := ds.filter fun d => d.kind = "unhandled_attribute"
    List.Forall₂ (Diagnostic.PointsAt data) notes c.raw ∧
      notes.Pairwise fun d e => d.offset < e.offset := by
  intro notes
  obtain ⟨t, trailing, hwf, rfl, rfl⟩ := (parse_eq_iff want data c ds).1 h
  have hcovers := covers_layout hwf trailing
  have hnotes : notes = c.notes t 0 := by
    have hall : (c.notes t 0).filter (fun d => d.kind = "unhandled_attribute") = c.notes t 0 :=
      List.filter_eq_self.2 fun d hd => decide_eq_true (hcovers.unhandled d hd)
    rw [show notes = _ from List.filter_append _ _, hall]
    split_ifs
    · exact List.append_nil _
    · exact List.append_nil _
  rw [hnotes]
  exact ⟨hcovers.points, hcovers.increasing⟩

/-- A field, a method and the class itself have attributes with the name `X`; those of the method
are in its code, and one of them in a Code attribute inside the code. -/
def layered : ClassFile :=
  let x (info : Bytes) : Attribute := .other 2 (utf8 "X") info
  { major := 50, pool := { count := 3, entries := [.utf8 (utf8 "Code"), .utf8 (utf8 "X")] },
    fields := [{ flags := ⟨0⟩, nameIndex := 2, descriptorIndex := 2, attributes := [x [8, 9]] }],
    methods := [{ flags := ⟨9⟩, nameIndex := 2, descriptorIndex := 2,
                  attributes := [.code 1 0 0 [0xB1] [x [], .code 1 0 0 [] [x [7]], x [5]]] }],
    attributes := [x []] }

theorem layered_wellFormed : layered.WellFormed 50 {} := by
  have hcode : layered.pool.text 1 = .ok (utf8 "Code") := rfl
  have hx (info : Bytes) (hinfo : info.length < 2 ^ 32) :
      Attribute.Fits layered.pool (.other 2 (utf8 "X") info) {} := ⟨rfl, by decide, hinfo⟩
  have hinner : Attribute.Fits layered.pool (.code 1 0 0 [] [.other 2 (utf8 "X") [7]]) {} :=
    ⟨hcode, by decide, by decide, by decide, by decide, hx [7] (by decide), trivial⟩
  refine ⟨rfl, rfl, ?_, by decide, ⟨by decide, ?_⟩, ⟨by decide, ?_⟩, ⟨by decide, ?_⟩⟩
  · have hnames : ∀ k ∈ [utf8 "Code", utf8 "X"], k.length < 2 ^ 16 := by decide
    simpa [layered, ClassMachine.Constant.Fits] using hnames
  · exact ⟨⟨by decide, hx [8, 9] (by decide), trivial⟩, trivial⟩
  · exact ⟨⟨by decide, ⟨hcode, by decide, by decide, by decide, by decide, hx [] (by decide),
      hinner, hx [5] (by decide), trivial⟩, trivial⟩, trivial⟩
  · exact ⟨hx [] (by decide), trivial⟩

/-- Notes are made on attributes without a payload too, and in the order of the file also where one
is inside another. -/
theorem layered_located :
    let data := layered.layout {} ++ [0xFF]
    let notes := [45, 82, 106, 113, 122].zipWith
      (fun offset length => Diagnostic.unhandledAttribute offset (utf8 "X") length) [2, 0, 1, 1, 0]
    parse 50 data = (.ok layered, notes ++ [.trailingData 123]) ∧
      List.Forall₂ (Diagnostic.PointsAt data) notes layered.raw ∧
      notes.Pairwise fun d e => d.offset < e.offset := by
  intro data notes
  have hread : parse 50 data = (.ok layered, notes ++ [.trailingData 123]) :=
    (parse_eq_iff ..).2 ⟨{}, [0xFF], layered_wellFormed, rfl, rfl⟩
  obtain ⟨hpoints, hincreasing⟩ := unhandled_attributes_located 50 data layered _ hread
  have hfilter : (notes ++ [Diagnostic.trailingData 123]).filter
      (fun d => d.kind = "unhandled_attribute") = notes := rfl
  rw [hfilter] at hpoints hincreasing
  exact ⟨hread, hpoints, hincreasing⟩

theorem filter_trailing (hwf : c.WellFormed want t) (found : List Diagnostic)
    (hfound : ∀ d ∈ found, d.kind = "trailing_data") :
    (c.notes t 0 ++ found).filter (fun d => d.kind = "trailing_data") = found := by
  have hnotes : (c.notes t 0).filter (fun d => d.kind = "trailing_data") = [] := by
    refine List.filter_eq_nil_iff.2 fun d hd => ?_
    rw [(covers_layout hwf []).unhandled d hd]
    decide
  have hall : found.filter (fun d => d.kind = "trailing_data") = found :=
    List.filter_eq_self.2 fun d hd => decide_eq_true (hfound d hd)
  rw [List.filter_append, hnotes, hall, List.nil_append]

/-- If bytes are left over behind a class there is one note on them, and its offset is one more than
that of the first of these bytes. -/
theorem trailing_note_past_first_byte (want : UInt16) (data : Bytes) (c : ClassFile)
    (ds : List Diagnostic) (h : parse want data = (.ok c, ds)) :
    (∃ tables rest, c.WellFormed want tables ∧ data = c.layout tables ++ rest) ∧
    ∀ tables rest, c.WellFormed want tables → data = c.layout tables ++ rest →
      (ds.filter fun d => d.kind = "trailing_data") =
        (if rest = [] then [] else [.trailingData ((c.layout tables).length + 1)]) ∧
      ((∀ d ∈ ds, d.kind = "trailing_data" → d.offset = (c.layout tables).length) ↔
        rest = []) := by
  constructor
  · obtain ⟨tables, rest, hwf, hdata, -⟩ := (parse_eq_iff want data c ds).1 h
    exact ⟨tables, rest, hwf, hdata⟩
  · intro tables rest hwf hdata
    -- whatever the tables are, what is read is determined by the input
    have hread := (parse_eq_iff want data c _).2 ⟨tables, rest, hwf, hdata, rfl⟩
    obtain rfl : ds = _ := congrArg Prod.snd (h.symm.trans hread)
    by_cases hrest : rest = []
    · rw [if_pos hrest]
      have hnone := filter_trailing hwf [] nofun
      refine ⟨hnone, fun _ => hrest, fun _ d hd hkind => ?_⟩
      exact absurd hkind (by simpa using List.filter_eq_nil_iff.1 hnone d hd)
    · rw [if_neg hrest]
      refine ⟨filter_trailing hwf _ fun d hd => ?_, fun hoffset => ?_, fun h => absurd h hrest⟩
      · rw [List.mem_singleton.1 hd]
        rfl
      · have hone := hoffset (.trailingData ((c.layout tables).length + 1)) (by simp) rfl
        exact absurd hone (Nat.succ_ne_self _)

theorem layered_trailing_note :
    let data := layered.layout {} ++ [0xFF]
    let notes := [45, 82, 106, 113, 122].zipWith
      (fun offset length => Diagnostic.unhandledAttribute offset (utf8 "X") length) [2, 0, 1, 1, 0]
    let ds := notes ++ [.trailingData 123]
    parse 50 data = (.ok layered, ds) ∧ layered.WellFormed 50 {} ∧
      (ds.filter fun d => d.kind = "trailing_data") =
        [.trailingData ((layered.layout {}).length + 1)] := by
  intro data notes ds
  have hread : parse 50 data = (.ok layered, ds) :=
    (parse_eq_iff ..).2 ⟨{}, [0xFF], layered_wellFormed, rfl, rfl⟩
  have hnote := (trailing_note_past_first_byte 50 data layered ds hread).2 {} [0xFF]
    layered_wellFormed rfl
  exact ⟨hread, layered_wellFormed, hnote.1⟩

def bare : ClassFile := { major := 50, pool := { count := 1 } }

/-- The byte behind the class has the offset 24. -/
theorem bare_note_misplaced :
    let data := bare.layout {} ++ [0xFF]
    bare.WellFormed 50 {} ∧ parse 50 data = (.ok bare, [.trailingData 25]) ∧
      ¬ ∀ d ∈ (parse 50 data).2, d.kind = "trailing_data" → d.offset = (bare.layout {}).length := by
  intro data
  have hwf : bare.WellFormed 50 {} :=
    ⟨rfl, rfl, nofun, by decide, ⟨by decide, trivial⟩, ⟨by decide, trivial⟩, ⟨by decide, trivial⟩⟩
  have hread : parse 50 data = (.ok bare, [.trailingData 25]) :=
    (parse_eq_iff ..).2 ⟨{}, [0xFF], hwf, rfl, rfl⟩
  refine ⟨hwf, hread, ?_⟩
  rw [hread]
  exact fun h => absurd (h (.trailingData 25) List.mem_cons_self rfl) (by decide)

end ClassFile

end ClassMachine
