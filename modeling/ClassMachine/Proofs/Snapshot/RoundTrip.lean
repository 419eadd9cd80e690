import Mathlib.Data.List.Nodup
import ClassMachine.Proofs.Cbor.RoundTrip
import ClassMachine.Snapshot.Codec

/-! Snapshots read back. The map of a snapshot determines it (`ofItem_toItem`), and it is what is read
from its bytes if nothing in it is longer than in a class file (`Fits`). -/
namespace ClassMachine

open Cbor (Item Plain null)

namespace Snapshot

/-! Each part of a snapshot is what is read from its item. -/

section Shapes

@[simp] theorem u2?_u2Item (n : UInt16) : (u2Item n).u2? = some n := by
  have hn : n.toNat ≤ 65535 := Nat.le_of_lt_succ n.toNat_lt
  simp [u2Item, Item.u2?, Item.number?, Item.untagged, hn]

@[simp] theorem u1?_u1Item (n : UInt8) : (u1Item n).u1? = some n := by
  have hn : n.toNat ≤ 255 := Nat.le_of_lt_succ n.toNat_lt
  simp [u1Item, Item.u1?, Item.number?, Item.untagged, hn]

@[simp] theorem u2?_unlessZero (n : UInt16) : ((unlessZero n).getD null).u2? = some n := by
  unfold unlessZero
  split
  case isTrue h =>
    rw [h]
    rfl
  case isFalse => exact u2?_u2Item n

@[simp] theorem bytes?_bytesItem (b : Option Bytes) : (bytesItem b).bytes? = some b := by
  cases b <;> rfl

theorem list?_listItem {α : Type} {element : α → Item} {element? : Item → Option α}
    (h : ∀ a, element? (element a) = some a) (l : Option (List α)) :
    (listItem element l).list? element? = some l := by
  cases l with
  | none => rfl
  | some l =>
    have hall : (l.map element).mapM element? = some l := by
      induction l with
      | nil => rfl
      | cons a l ih => simp [h, ih]
    exact congrArg (Option.map some) hall

def present (fields : List (Nat × Option Item)) : List (Nat × Item) :=
  fields.filterMap fun x => x.2.map (x.1, ·)

@[simp] theorem fields?_record (fields : List (Nat × Option Item)) :
    (record fields).fields? = some (present fields) := by
  show Item.fieldsFrom _ = _
  induction fields with
  | nil => rfl
  | cons x fields ih =>
    obtain ⟨name, value⟩ := x
    cases value with
    | none => exact ih
    | some v =>
      simp only [List.flatMap_cons, List.cons_append, List.nil_append, Item.fieldsFrom,
        Item.fieldName, ih]
      rfl

theorem field_present {fields : List (Nat × Option Item)} (h : (fields.map Prod.fst).Nodup)
    (n : Nat) : Cbor.field (present fields) n = (fields.lookup n).join.getD null := by
  have hlookup : (present fields).lookup n = (fields.lookup n).join := by
    induction fields with
    | nil => rfl
    | cons x fields ih =>
      obtain ⟨name, value⟩ := x
      obtain ⟨hname, hrest⟩ := List.nodup_cons.1 h
      have htail := ih hrest
      by_cases hn : n = name
      · subst hn
        -- The name does not come again, so a field that is left out is not found later.
        have hnone : fields.lookup n = none := by
          refine List.lookup_eq_none_iff.2 fun y hy => ?_
          have hy' : n ≠ y.1 := fun hny => hname (List.mem_map.2 ⟨y, hy, hny.symm⟩)
          exact bne_iff_ne.2 hy'
        rw [hnone] at htail
        cases value with
        | none => simpa [present, List.lookup_cons] using htail
        | some v => simp [present]
      · have hne : (n == name) = false := beq_false_of_ne hn
        cases value with
        | none => simpa [present, List.lookup_cons, hne] using htail
        | some v => simpa [present, List.lookup_cons, hne] using htail
  rw [Cbor.field, hlookup]

theorem Constant.ofItem_toItem (c : Constant) : ofItem c.toItem = some c := by
  obtain ⟨index, tag, text, a, b⟩ := c
  cases text with
  | nil =>
    have htext : null.bytes? = some none := rfl
    simp [ofItem, toItem, field_present, List.lookup_cons, htext]
  | cons x text =>
    have htext : (Item.bytes (x :: text)).bytes? = some (some (x :: text)) := rfl
    simp [ofItem, toItem, field_present, List.lookup_cons, htext]

theorem Code.ofItem_toItem (c : Code) : ofItem c.toItem = some c := by
  simp [ofItem, toItem, field_present, List.lookup_cons]

theorem Code.ofItem?_toItem (code : Option Code) :
    ofItem? ((code.map toItem).getD null) = some code := by
  cases code with
  | none => rfl
  | some c => exact congrArg (Option.map some) c.ofItem_toItem

theorem Member.ofItem_toItem (m : Member) : ofItem m.toItem = some m := by
  simp [ofItem, toItem, field_present, List.lookup_cons, Code.ofItem?_toItem]

theorem ofItem_toItem (s : Snapshot) : ofItem s.toItem = some s := by
  simp [ofItem, toItem, field_present, List.lookup_cons, list?_listItem,
    Constant.ofItem_toItem, Member.ofItem_toItem]

end Shapes

/-! Sizes. The reader takes items with few levels whose lists are not too long. -/

section Sizes
variable {levels : Nat}

theorem plain_u2 (n : UInt16) : Plain levels (u2Item n) :=
  .uint (Nat.lt_trans n.toNat_lt (by decide))

theorem plain_u1 (n : UInt8) : Plain levels (u1Item n) :=
  .uint (Nat.lt_trans n.toNat_lt (by decide))

theorem plain_unlessZero (n : UInt16) : ∀ v ∈ unlessZero n, Plain levels v := by
  intro v hv
  unfold unlessZero at hv
  split at hv
  · cases hv
  · cases hv
    exact plain_u2 n

theorem plain_bytes {b : Option Bytes} (h : (b.getD []).length < 2 ^ 64) :
    Plain levels (bytesItem b) := by
  cases b with
  | none => exact .null
  | some b => exact .bytes h

theorem plain_list {α : Type} {element : α → Item} {l : Option (List α)}
    (hlength : (l.getD []).length ≤ Cbor.maxElements)
    (h : ∀ a ∈ l.getD [], Plain levels (element a)) :
    Plain (levels + 1) (listItem element l) := by
  cases l with
  | none => exact .null
  | some l =>
    refine .array ?_ (List.forall_mem_map.2 h)
    rw [List.length_map]
    exact hlength

/-- Names and values stand in turn, so the number of items is even. -/
theorem record_items (fields : List (Nat × Option Item)) :
    ∃ items, record fields = .map items ∧ items.length = 2 * (present fields).length ∧
      ∀ item ∈ items, ∃ x ∈ fields, item = .uint x.1 ∨ item ∈ x.2 := by
  refine ⟨_, rfl, ?_, ?_⟩
  · induction fields with
    | nil => rfl
    | cons x fields ih =>
      obtain ⟨name, value⟩ := x
      rw [List.flatMap_cons, List.length_append, ih]
      cases value with
      | none => simp [present]
      | some v =>
        simp only [present, List.filterMap_cons, Option.map_some, List.length_cons, List.length_nil]
        omega
  · intro item hitem
    obtain ⟨⟨name, value⟩, hx, hitem⟩ := List.mem_flatMap.1 hitem
    refine ⟨(name, value), hx, ?_⟩
    cases value with
    | none => cases hitem
    | some v => simpa [eq_comm] using hitem

theorem plain_record {fields : List (Nat × Option Item)} (hlength : fields.length ≤ Cbor.maxElements)
    (h : ∀ x ∈ fields, x.1 < 2 ^ 64 ∧ ∀ v ∈ x.2, Plain levels v) :
    Plain (levels + 1) (record fields) := by
  obtain ⟨items, hrecord, hitems, hparts⟩ := record_items fields
  have hpresent : (present fields).length ≤ fields.length := List.length_filterMap_le _ _
  rw [hrecord]
  refine .map (by omega) (by omega) fun item hitem => ?_
  obtain ⟨x, hx, rfl | hvalue⟩ := hparts item hitem
  · exact .uint (h x hx).1
  · exact (h x hx).2 item hvalue

theorem Constant.plain_toItem {c : Constant} (h : c.text.length < 2 ^ 64) :
    Plain (levels + 1) c.toItem := by
  refine plain_record (show 5 ≤ Cbor.maxElements by decide) ?_
  have hnumbers : (∀ v ∈ unlessZero c.a, Plain levels v) ∧ ∀ v ∈ unlessZero c.b, Plain levels v :=
    ⟨plain_unlessZero c.a, plain_unlessZero c.b⟩
  simpa [plain_u2, plain_u1, Plain.bytes h] using hnumbers

theorem Code.plain_toItem {c : Code} (h : (c.bytes.getD []).length < 2 ^ 64) :
    Plain (levels + 1) c.toItem := by
  refine plain_record (show 3 ≤ Cbor.maxElements by decide) ?_
  simp [plain_u2, plain_bytes h]

theorem Member.plain_toItem {m : Member} (h : ∀ c ∈ m.code, (c.bytes.getD []).length < 2 ^ 64) :
    Plain (levels + 2) m.toItem := by
  refine plain_record (show 4 ≤ Cbor.maxElements by decide) ?_
  have hcode : ∀ v ∈ m.code.map Code.toItem, Plain (levels + 1) v := by
    intro v hv
    obtain ⟨c, hc, rfl⟩ := Option.map_eq_some_iff.1 hv
    exact Code.plain_toItem (h c hc)
  simpa [plain_u2] using hcode

/-- No list, text or code is longer than one in a class file. -/
structure Fits (s : Snapshot) : Prop where
  interfaces : (s.interfaces.getD []).length < 2 ^ 16
  constants : (s.constants.getD []).length < 2 ^ 16
  fields : (s.fields.getD []).length < 2 ^ 16
  methods : (s.methods.getD []).length < 2 ^ 16
  texts : ∀ c ∈ s.constants.getD [], c.text.length < 2 ^ 16
  fieldCodes : ∀ m ∈ s.fields.getD [], ∀ c ∈ m.code, (c.bytes.getD []).length < 2 ^ 32
  methodCodes : ∀ m ∈ s.methods.getD [], ∀ c ∈ m.code, (c.bytes.getD []).length < 2 ^ 32

theorem plain_toItem {s : Snapshot} (h : s.Fits) : Plain (levels + 4) s.toItem := by
  have hcount {n : Nat} (hn : n < 2 ^ 16) : n ≤ Cbor.maxElements :=
    Nat.le_of_lt (Nat.lt_trans hn (by decide))
  have htext {n : Nat} (hn : n < 2 ^ 16) : n < 2 ^ 64 := Nat.lt_trans hn (by decide)
  have hcode {n : Nat} (hn : n < 2 ^ 32) : n < 2 ^ 64 := Nat.lt_trans hn (by decide)
  have hinterfaces : Plain (levels + 3) (listItem u2Item s.interfaces) :=
    plain_list (hcount h.interfaces) fun n _ => plain_u2 n
  have hconstants : Plain (levels + 3) (listItem Constant.toItem s.constants) :=
    plain_list (hcount h.constants) fun c hc => Constant.plain_toItem (htext (h.texts c hc))
  have hfields : Plain (levels + 3) (listItem Member.toItem s.fields) :=
    plain_list (hcount h.fields) fun m hm =>
      Member.plain_toItem fun c hc => hcode (h.fieldCodes m hm c hc)
  have hmethods : Plain (levels + 3) (listItem Member.toItem s.methods) :=
    plain_list (hcount h.methods) fun m hm =>
      Member.plain_toItem fun c hc => hcode (h.methodCodes m hm c hc)
  refine plain_record (show 9 ≤ Cbor.maxElements by decide) ?_
  simp [plain_u2, hinterfaces, hconstants, hfields, hmethods]

theorem decode_encode {s : Snapshot} (h : s.Fits) : decode (encode s) = some s := by
  have hread : Cbor.decode (encode s) = some s.toItem := Cbor.decode_encode (plain_toItem h)
  rw [decode, hread]
  exact ofItem_toItem s

end Sizes

end Snapshot

end ClassMachine
