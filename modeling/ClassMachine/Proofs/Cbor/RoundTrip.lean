import Mathlib.Algebra.Group.Nat.Defs
import ClassMachine.Cbor.Reader

/-! Data items read back. Of the items that are written, those are looked at that consist of
numbers, byte strings, nulls, arrays and maps (`Plain`). The reader takes the encoding of such an
item off the front of any bytes and gives the item. -/
namespace ClassMachine

namespace Bytes

theorem length_bigEndian (width n : Nat) : (bigEndian width n).length = width := by
  induction width generalizing n with
  | zero => rfl
  | succ width ih => rw [bigEndian, List.length_append, ih, List.length_singleton]

theorem ofBigEndian_bigEndian {width n : Nat} (h : n < 256 ^ width) :
    ofBigEndian (bigEndian width n) = n := by
  induction width generalizing n with
  | zero =>
    rw [Nat.lt_one_iff.1 h]
    rfl
  | succ width ih =>
    have hhigh : n / 256 < 256 ^ width := by
      rw [Nat.pow_succ'] at h
      exact Nat.div_lt_of_lt_mul h
    have hlow : (UInt8.ofNat n).toNat = n % 256 := UInt8.toNat_ofNat'
    have hlast : ofBigEndian (bigEndian width (n / 256) ++ [UInt8.ofNat n]) =
        ofBigEndian (bigEndian width (n / 256)) * 256 + (UInt8.ofNat n).toNat :=
      List.foldl_append
    rw [bigEndian, hlast, ih hhigh, hlow]
    omega

end Bytes

namespace Cbor
open Bytes

theorem takeBytes_append (b rest : Bytes) : takeBytes b.length (b ++ rest) = some (b, rest) := by
  induction b with
  | nil => rfl
  | cons x b ih =>
    rw [List.length_cons, List.cons_append, takeBytes, ih]
    rfl

section Heads
variable {major n : Nat} (rest : Bytes)

theorem toNat_initial {info : Nat} (hmajor : major < 8) (hinfo : info < 32) :
    (UInt8.ofNat (major * 32 + info)).toNat = major * 32 + info := by
  rw [UInt8.toNat_ofNat']
  omega

theorem readHead_narrow (hmajor : major < 8) (h : n < 24) :
    readHead (UInt8.ofNat (major * 32 + n) :: rest) = some (⟨major, n, n⟩, rest) := by
  have hdiv : (major * 32 + n) / 32 = major := by omega
  have hmod : (major * 32 + n) % 32 = n := by omega
  simp only [readHead, toNat_initial hmajor (show n < 32 by omega), hdiv, hmod, if_pos h]

theorem readHead_wide {k : Nat} (hmajor : major < 8) (hk : k < 4) (h : n < 256 ^ 2 ^ k) :
    readHead (UInt8.ofNat (major * 32 + (24 + k)) :: (bigEndian (2 ^ k) n ++ rest)) =
      some (⟨major, 24 + k, n⟩, rest) := by
  have hdiv : (major * 32 + (24 + k)) / 32 = major := by omega
  have hmod : (major * 32 + (24 + k)) % 32 = 24 + k := by omega
  have htake := takeBytes_append (bigEndian (2 ^ k) n) rest
  rw [length_bigEndian] at htake
  have hwide : 24 + k - 24 = k := by omega
  simp only [readHead, toNat_initial hmajor (show 24 + k < 32 by omega), hdiv, hmod, hwide,
    if_neg (show ¬ 24 + k < 24 by omega), if_pos (show 24 + k < 28 by omega)]
  rw [show Nat.pow 2 k = 2 ^ k from rfl, htake, Option.map_some, ofBigEndian_bigEndian h]

def infoOf (n : Nat) : Nat :=
  if n < 24 then n
  else if n < Nat.pow 2 8 then 24
  else if n < Nat.pow 2 16 then 25
  else if n < Nat.pow 2 32 then 26
  else 27

theorem not_indefinite (major n : Nat) : Head.indefinite ⟨major, infoOf n, n⟩ = false := by
  have hinfo : infoOf n ≠ 31 := by grind [infoOf]
  exact beq_false_of_ne hinfo

theorem readHead_head (hmajor : major < 8) (h : n < 2 ^ 64) :
    readHead (head major n ++ rest) = some (⟨major, infoOf n, n⟩, rest) := by
  unfold head infoOf
  split
  · exact readHead_narrow rest hmajor ‹_›
  split
  · exact readHead_wide rest hmajor (k := 0) (by decide) ‹_›
  split
  · exact readHead_wide rest hmajor (k := 1) (by decide) ‹_›
  split
  · exact readHead_wide rest hmajor (k := 2) (by decide) ‹_›
  · exact readHead_wide rest hmajor (k := 3) (by decide) h

end Heads

/-- The items of numbers, byte strings, nulls, arrays and maps, with at most `levels` levels. -/
inductive Plain : Nat → Item → Prop
  | uint {levels n : Nat} (h : n < 2 ^ 64) : Plain levels (.uint n)
  | bytes {levels : Nat} {b : Bytes} (h : b.length < 2 ^ 64) : Plain levels (.bytes b)
  | null {levels : Nat} : Plain levels null
  | array {levels : Nat} {items : List Item} (hlength : items.length ≤ maxElements)
      (h : ∀ item ∈ items, Plain levels item) : Plain (levels + 1) (.array items)
  | map {levels : Nat} {items : List Item} (hlength : items.length / 2 ≤ maxElements)
      (heven : items.length % 2 = 0) (h : ∀ item ∈ items, Plain levels item) :
      Plain (levels + 1) (.map items)

/-- The reader takes the encoding of an item off the front of bytes. -/
def Takes (read : Reader Item) (item : Item) : Prop :=
  ∀ rest, read (item.encode ++ rest) = some (item, rest)

theorem readCounted_encodeAll {read : Reader Item} {items : List Item}
    (h : ∀ item ∈ items, Takes read item) (rest : Bytes) :
    readCounted read items.length (encodeAll items ++ rest) = some (items, rest) := by
  induction items with
  | nil => rfl
  | cons item items ih =>
    obtain ⟨hitem, hitems⟩ := List.forall_mem_cons.1 h
    rw [List.length_cons, encodeAll, List.append_assoc, readCounted, hitem]
    simp only [Option.bind_eq_bind, Option.bind_some, ih hitems]
    rfl

theorem readElements_encodeAll {read : Reader Item} {items : List Item} {n width : Nat} (major : Nat)
    (h : ∀ item ∈ items, Takes read item) (hn : n ≤ maxElements)
    (hlength : n * width = items.length) (rest : Bytes) :
    readElements read ⟨major, infoOf n, n⟩ width (encodeAll items ++ rest) = some (items, rest) := by
  rw [readElements, not_indefinite, if_neg Bool.false_ne_true, if_pos hn, hlength]
  exact readCounted_encodeAll h rest

theorem Plain.head_encode {levels : Nat} {item : Item} (h : Plain levels item) :
    ∃ major n body, item.encode = head major n ++ body ∧ major < 8 ∧ major ≠ 6 ∧ n < 2 ^ 64 := by
  cases h with
  | @uint _ n h => exact ⟨0, n, [], (List.append_nil _).symm, by decide, by decide, h⟩
  | @bytes _ b h => exact ⟨2, b.length, b, rfl, by decide, by decide, h⟩
  | null => exact ⟨7, 22, [], rfl, by decide, by decide, by decide⟩
  | @array _ items hlength =>
    exact ⟨4, items.length, encodeAll items, rfl, by decide, by decide,
      Nat.lt_of_le_of_lt hlength (by decide)⟩
  | @map _ items hlength =>
    exact ⟨5, items.length / 2, encodeAll items, rfl, by decide, by decide,
      Nat.lt_of_le_of_lt hlength (by decide)⟩

theorem takes_readItem {levels : Nat} {item : Item} {content : Reader Item} (h : Plain levels item)
    (hcontent : Takes content item) : Takes (readItem content) item := by
  intro rest
  obtain ⟨major, n, body, hencode, hmajor, huntagged, hn⟩ := h.head_encode
  have hhead := readHead_head (body ++ rest) hmajor hn
  rw [← List.append_assoc, ← hencode] at hhead
  rw [readItem, hhead]
  exact (if_neg huntagged).trans (hcontent rest)

theorem takes_readNested {levels : Nat} {item : Item} (h : Plain levels item) :
    Takes (readNested levels) item := by
  induction h with
  | @uint _ n h =>
    intro rest
    rw [Item.encode, readNested, readHead_head rest (by decide) h]
    rfl
  | @bytes _ b h =>
    intro rest
    rw [Item.encode, List.append_assoc, readNested, readHead_head (b ++ rest) (by decide) h]
    simp [readString, not_indefinite, takeBytes_append]
  | null =>
    intro rest
    rw [null, Item.encode, readNested, readHead_head rest (by decide) (by decide)]
    rfl
  | @array levels items hlength h ih =>
    intro rest
    have hitems : ∀ item ∈ items, Takes (readItem (readNested levels)) item := fun item hitem =>
      takes_readItem (h item hitem) (ih item hitem)
    have helements := readElements_encodeAll 4 hitems hlength (Nat.mul_one _) rest
    rw [Item.encode, List.append_assoc, readNested,
      readHead_head (encodeAll items ++ rest) (by decide) (Nat.lt_of_le_of_lt hlength (by decide))]
    exact congrArg (Option.map fun x : List Item × Bytes => (Item.array x.1, x.2)) helements
  | @map levels items hlength heven h ih =>
    intro rest
    have hitems : ∀ item ∈ items, Takes (readItem (readNested levels)) item := fun item hitem =>
      takes_readItem (h item hitem) (ih item hitem)
    have hpairs : items.length / 2 * 2 = items.length :=
      Nat.div_mul_cancel (Nat.dvd_of_mod_eq_zero heven)
    have helements := readElements_encodeAll 5 hitems hlength hpairs rest
    rw [Item.encode, List.append_assoc, readNested,
      readHead_head (encodeAll items ++ rest) (by decide) (Nat.lt_of_le_of_lt hlength (by decide))]
    exact congrArg (Option.map fun x : List Item × Bytes => (Item.map x.1, x.2)) helements

theorem decode_encode {item : Item} (h : Plain maxLevels item) :
    decode item.encode = some item := by
  have hread := takes_readItem h (takes_readNested h) []
  rw [List.append_nil] at hread
  rw [decode, hread]

end Cbor

end ClassMachine
