import ClassMachine.Proofs.ClassFile.Layout
import ClassMachine.Proofs.ClassFile.Reading

/-! The grammar of class files. For each part there is a statement that reading it succeeds exactly
on its layouts; the nesting of Code attributes is bounded by the length of a layout, so the depth to
which `parse` reads is no restriction. Main statement: a class file is read from exactly those
inputs that start with a layout of it. -/
namespace ClassMachine
open Assembler (count length4)

theorem Constant.kind_supported (c : Constant) : c.kind.supported = true := by
  cases c with
  | ref k owner member => cases k <;> rfl
  | _ => rfl

namespace ClassFile

namespace Parser
open Fallible Reading
variable {α : Type}

/-- A count that was read is the number of the items that follow it. -/
theorem passes_count_iff (l : List α) (s s' : Scan) :
    l.length < 2 ^ 16 ∧ s.Passes (count l) [] s' ↔
      ∃ n : UInt16, s.Passes (Bytes.u2 n) [] s' ∧ l.length = n.toNat := by
  constructor
  · intro h
    obtain ⟨hl, h⟩ := h
    exact ⟨_, h, by simp; omega⟩
  · intro h
    obtain ⟨n, hn, hl⟩ := h
    have hlt := n.toNat_lt
    exact ⟨by omega, by simpa [count, hl] using hn⟩

theorem passes_length_iff (b : Bytes) (s s' : Scan) :
    b.length < 2 ^ 32 ∧ s.Passes (length4 b) [] s' ↔
      ∃ n : UInt32, s.Passes (Bytes.u4 n) [] s' ∧ b.length = n.toNat := by
  constructor
  · intro h
    obtain ⟨hl, h⟩ := h
    exact ⟨_, h, by simp; omega⟩
  · intro h
    obtain ⟨n, hn, hl⟩ := h
    have hlt := n.toNat_lt
    exact ⟨by omega, by simpa [length4, hl] using hn⟩

/-! Constants: a text, one number or two numbers after the tag. -/

theorem constantOf_utf8_iff (i : Nat) (s s' : Scan) (c : Constant) :
    (constantOf i .utf8 : Parser Constant) s = .ok c s' ↔
      ∃ b, .utf8 b = c ∧ b.length < 2 ^ 16 ∧ s.Passes (count b ++ b) [] s' := by
  simp only [constantOf, if_true, bind_ok_iff, pure_ok_iff, u2_ok_iff, bytes_ok_iff,
    Scan.passes_front]
  constructor
  · intro h
    obtain ⟨n, t, hn, b, t', ⟨hb, ht⟩, hc, rfl⟩ := h
    obtain ⟨hlt, hcount⟩ := (passes_count_iff b s t).2 ⟨n, hn, hb⟩
    exact ⟨b, hc, hlt, t, hcount, ht⟩
  · intro h
    obtain ⟨b, hc, hlt, t, hcount, ht⟩ := h
    obtain ⟨n, hn, hb⟩ := (passes_count_iff b s t).1 ⟨hlt, hcount⟩
    exact ⟨n, t, hn, b, s', ⟨hb, ht⟩, hc, rfl⟩

theorem single_ok_iff (part : String) (build : UInt16 → Constant) (s s' : Scan) (c : Constant) :
    (do let a ← u2 part; pure (build a) : Parser Constant) s = .ok c s' ↔
      ∃ a, build a = c ∧ s.Passes (Bytes.u2 a) [] s' := by
  simp only [bind_ok_iff, pure_ok_iff, u2_ok_iff]
  constructor
  · intro h
    obtain ⟨a, t, ha, hc, rfl⟩ := h
    exact ⟨a, hc, ha⟩
  · intro h
    obtain ⟨a, hc, ha⟩ := h
    exact ⟨a, s', ha, hc, rfl⟩

theorem double_ok_iff (part : String) (build : UInt16 → UInt16 → Constant) (s s' : Scan)
    (c : Constant) :
    (do
      let a ← u2 part
      let b ← u2 part
      pure (build a b) : Parser Constant) s = .ok c s' ↔
      ∃ a b, build a b = c ∧ s.Passes (Bytes.u2 a ++ Bytes.u2 b) [] s' := by
  simp only [bind_ok_iff, pure_ok_iff, u2_ok_iff, Scan.passes_front]
  constructor
  · intro h
    obtain ⟨a, t, ha, b, t', hb, hc, rfl⟩ := h
    exact ⟨a, b, hc, t, ha, hb⟩
  · intro h
    obtain ⟨a, b, hc, t, ha, hb⟩ := h
    exact ⟨a, t, ha, b, s', hb, hc, rfl⟩

theorem constantOf_cls_iff (i : Nat) (s s' : Scan) (c : Constant) :
    (constantOf i .cls : Parser Constant) s = .ok c s' ↔
      ∃ a, .cls a = c ∧ s.Passes (Bytes.u2 a) [] s' :=
  single_ok_iff s!"{Kind.cls.name} at index {i}" .cls s s' c

theorem constantOf_string_iff (i : Nat) (s s' : Scan) (c : Constant) :
    (constantOf i .string : Parser Constant) s = .ok c s' ↔
      ∃ a, .string a = c ∧ s.Passes (Bytes.u2 a) [] s' :=
  single_ok_iff s!"{Kind.string.name} at index {i}" .string s s' c

theorem constantOf_ref_iff (k : RefKind) (i : Nat) (s s' : Scan) (c : Constant) :
    (constantOf i k.kind : Parser Constant) s = .ok c s' ↔
      ∃ a b, .ref k a b = c ∧ s.Passes (Bytes.u2 a ++ Bytes.u2 b) [] s' := by
  cases k <;> exact double_ok_iff _ (.ref _) s s' c

theorem constantOf_nameAndType_iff (i : Nat) (s s' : Scan) (c : Constant) :
    (constantOf i .nameAndType : Parser Constant) s = .ok c s' ↔
      ∃ a b, .nameAndType a b = c ∧ s.Passes (Bytes.u2 a ++ Bytes.u2 b) [] s' :=
  double_ok_iff s!"{Kind.nameAndType.name} at index {i}" .nameAndType s s' c

theorem constantOf_ok_iff (i : Nat) (kind : Kind) (h : kind.supported = true) (s s' : Scan)
    (c : Constant) :
    (constantOf i kind : Parser Constant) s = .ok c s' ↔
      c.kind = kind ∧ c.Fits ∧ s.Passes c.payload [] s' := by
  constructor
  · intro hc
    simp only [Kind.supported, List.mem_cons, List.not_mem_nil, or_false, decide_eq_true_eq] at h
    have href (k : RefKind) (hc : (constantOf i k.kind : Parser Constant) s = .ok c s') :
        c.kind = k.kind ∧ c.Fits ∧ s.Passes c.payload [] s' := by
      obtain ⟨a, b, rfl, hp⟩ := (constantOf_ref_iff k i s s' c).1 hc
      exact ⟨rfl, trivial, hp⟩
    rcases h with rfl | rfl | rfl | rfl | rfl | rfl | rfl
    · obtain ⟨b, rfl, hlt, hp⟩ := (constantOf_utf8_iff i s s' c).1 hc
      exact ⟨rfl, hlt, hp⟩
    · obtain ⟨a, rfl, hp⟩ := (constantOf_cls_iff i s s' c).1 hc
      exact ⟨rfl, trivial, hp⟩
    · obtain ⟨a, rfl, hp⟩ := (constantOf_string_iff i s s' c).1 hc
      exact ⟨rfl, trivial, hp⟩
    · exact href .field hc
    · exact href .method hc
    · exact href .interfaceMethod hc
    · obtain ⟨a, b, rfl, hp⟩ := (constantOf_nameAndType_iff i s s' c).1 hc
      exact ⟨rfl, trivial, hp⟩
  · intro h
    obtain ⟨rfl, hfits, hp⟩ := h
    cases c with
    | utf8 b => exact (constantOf_utf8_iff i s s' _).2 ⟨b, rfl, hfits, hp⟩
    | cls name => exact (constantOf_cls_iff i s s' _).2 ⟨name, rfl, hp⟩
    | string text => exact (constantOf_string_iff i s s' _).2 ⟨text, rfl, hp⟩
    | ref k owner member => exact (constantOf_ref_iff k i s s' _).2 ⟨owner, member, rfl, hp⟩
    | nameAndType name descriptor =>
      exact (constantOf_nameAndType_iff i s s' _).2 ⟨name, descriptor, rfl, hp⟩

theorem constant_ok_iff (i : Nat) (s : Scan) (c : Constant) (s' : Scan) :
    (constant i : Parser Constant) s = .ok c s' ↔ c.Fits ∧ s.Passes c.layout [] s' := by
  have hlayout : s.Passes c.layout [] s' ↔
      ∃ t, s.Passes [c.kind.tag] [] t ∧ t.Passes c.payload [] s' :=
    Scan.passes_front s s' [c.kind.tag] c.payload []
  rw [constant, bind_ok_iff, hlayout]
  simp only [u1_ok_iff]
  constructor
  · intro h
    obtain ⟨tag, t, htag, hc⟩ := h
    split at hc
    · simp [refuse_ok_iff] at hc
    · split at hc
      · simp [refuse_ok_iff] at hc
      · rename_i hsupported
        obtain ⟨hkind, hfits, hp⟩ :=
          (constantOf_ok_iff i ⟨tag⟩ (by simpa using hsupported) t s' c).1 hc
        exact ⟨hfits, t, by simpa [hkind] using htag, hp⟩
  · intro h
    obtain ⟨hfits, t, htag, hp⟩ := h
    have hsupported := c.kind_supported
    have hrecognized : Kind.recognized ⟨c.kind.tag⟩ = true := by
      simp [Kind.recognized, hsupported]
    refine ⟨c.kind.tag, t, htag, ?_⟩
    rw [if_neg (by simp [hrecognized]), if_neg (by simp [hsupported])]
    exact (constantOf_ok_iff i _ hsupported t s' c).2 ⟨rfl, hfits, hp⟩

theorem pool_ok_iff (n : UInt16) (s s' : Scan) (p : Pool) :
    (pool n : Parser Pool) s = .ok p s' ↔ p.count = n ∧ p.entries.length = n.toNat - 1 ∧
      (∀ k ∈ p.entries, k.Fits) ∧ s.Passes (p.entries.flatMap Constant.layout) [] s' := by
  simp only [pool, bind_ok_iff, pure_ok_iff, items_ok_iff constant_ok_iff, chain_passes_iff]
  constructor
  · intro h
    obtain ⟨entries, t, ⟨hlen, hfit, hp⟩, rfl, rfl⟩ := h
    exact ⟨rfl, hlen, hfit, hp⟩
  · intro h
    obtain ⟨rfl, hlen, hfit, hp⟩ := h
    exact ⟨p.entries, s', ⟨hlen, hfit, hp⟩, rfl, rfl⟩

/-! Attributes. -/

theorem length_entries (es : List ExceptionEntry) :
    (es.flatMap Subtype.val).length = 8 * es.length := by
  induction es with
  | nil => rfl
  | cons e es ih =>
    simp only [List.flatMap_cons, List.length_append, List.length_cons, ih, e.2]
    omega

theorem exists_entries (n : Nat) (b : Bytes) (h : b.length = n * 8) :
    ∃ es : List ExceptionEntry, es.length = n ∧ es.flatMap Subtype.val = b := by
  induction n generalizing b with
  | zero => exact ⟨[], rfl, (List.length_eq_zero_iff.1 (by simpa using h)).symm⟩
  | succ n ih =>
    obtain ⟨es, hlen, hes⟩ := ih (b.drop 8) (by simp; omega)
    have h8 : (b.take 8).length = 8 := List.length_take_of_le (by omega)
    exact ⟨⟨b.take 8, h8⟩ :: es, by simp [hlen], by simp [hes]⟩

def ReadAll (pool : Pool) (depth : Nat) (as : List Attribute) (s s' : Scan) : Prop :=
  Attribute.nestings as < depth ∧ as.length < 2 ^ 16 ∧ ∃ ts, Attribute.AllFit pool as ts ∧
    s.Passes (Attribute.counted as ts) (Attribute.notesAll as ts (s.cursor.offset + 2)) s'

def ReadOne (pool : Pool) (depth : Nat) (a : Attribute) (s s' : Scan) : Prop :=
  a.nesting ≤ depth ∧ ∃ t, a.Fits pool t ∧ s.Passes (a.layout t) (a.notes t s.cursor.offset) s'

/-- The parts of a Code payload are read one after the other; `done` is what is left to check. -/
theorem code_ok_iff {pool : Pool} {depth : Nat} {nested : Parser (List Attribute)}
    (h : ∀ s as s', nested s = .ok as s' ↔ ReadAll pool depth as s s')
    (nameIndex : UInt16) (payload : Bytes) (start : Nat) (s s' : Scan) (a : Attribute) :
    code nested nameIndex payload start s = .ok a s' ↔
      ∃ maxStack maxLocals bytes entries as ts,
        a = .code nameIndex maxStack maxLocals bytes as ∧ Attribute.nestings as < depth ∧
        bytes.length ≤ payload.length ∧ bytes.length < 2 ^ 32 ∧ entries.length < 2 ^ 16 ∧
        as.length < 2 ^ 16 ∧ Attribute.AllFit pool as ts ∧
        s'.cursor.offset - start = payload.length ∧
        s.Passes (Attribute.codePayload maxStack maxLocals bytes entries (Attribute.counted as ts))
          (Attribute.notesAll as ts
            (s.cursor.offset + 8 + bytes.length + 2 + 8 * entries.length + 2)) s' := by
  simp only [code, bind_ok_iff, u2_ok_iff, u4_ok_iff]
  constructor
  · intro h
    obtain ⟨maxStack, t₁, h₁, maxLocals, t₂, h₂, n, t₃, h₃, hcode⟩ := h
    split at hcode
    · simp [bind_ok_iff, refuse_ok_iff] at hcode
    · rename_i hlong
      simp only [bind_ok_iff, u2_ok_iff, bytes_ok_iff, during_ok_iff,
        offset_ok_iff, h] at hcode
      obtain ⟨bytes, t₄, ⟨hbytes, h₄⟩, k, t₅, h₅, table, t₆, ⟨htable, h₆⟩, as, t₇, h₇, stop, t₈,
        ⟨rfl, rfl⟩, hend⟩ := hcode
      split at hend
      · rename_i hstop
        obtain ⟨rfl, rfl⟩ := (pure_ok_iff _ _ _ _).1 hend
        obtain ⟨hnest, hcount, ts, hfit, h₇⟩ := h₇
        obtain ⟨entries, hentries, rfl⟩ := exists_entries k.toNat table htable
        obtain ⟨hlen, h₃⟩ := (passes_length_iff bytes t₂ t₃).2 ⟨n, h₃, hbytes⟩
        obtain ⟨hk, h₅⟩ := (passes_count_iff entries t₄ t₅).2 ⟨k, h₅, hentries⟩
        refine ⟨maxStack, maxLocals, bytes, entries, as, ts, rfl, hnest, by omega, hlen, hk, hcount,
          hfit, hstop, ?_⟩
        have hoffset : t₆.cursor.offset =
            s.cursor.offset + 8 + bytes.length + 2 + 8 * entries.length := by
          rw [h₆.offset, h₅.offset, h₄.offset, h₃.offset, h₂.offset, h₁.offset, length_entries]
          simp [count, length4]
        rw [hoffset] at h₇
        simp only [Attribute.codePayload, List.append_assoc, Scan.passes_front]
        exact ⟨t₁, h₁, t₂, h₂, t₃, h₃, t₄, h₄, t₅, h₅, t₆, h₆, h₇⟩
      · simp [refuse_ok_iff] at hend
  · intro h
    obtain ⟨maxStack, maxLocals, bytes, entries, as, ts, rfl, hnest, hlong, hlen, hk, hcount, hfit,
      hstop, hp⟩ := h
    simp only [Attribute.codePayload, List.append_assoc, Scan.passes_front] at hp
    obtain ⟨t₁, h₁, t₂, h₂, t₃, h₃, t₄, h₄, t₅, h₅, t₆, h₆, h₇⟩ := hp
    have hoffset : t₆.cursor.offset =
        s.cursor.offset + 8 + bytes.length + 2 + 8 * entries.length := by
      rw [h₆.offset, h₅.offset, h₄.offset, h₃.offset, h₂.offset, h₁.offset, length_entries]
      simp [count, length4]
    obtain ⟨n, h₃, hn⟩ := (passes_length_iff bytes t₂ t₃).1 ⟨hlen, h₃⟩
    obtain ⟨k, h₅, hk⟩ := (passes_count_iff entries t₄ t₅).1 ⟨hk, h₅⟩
    refine ⟨maxStack, t₁, h₁, maxLocals, t₂, h₂, n, t₃, h₃, ?_⟩
    rw [if_neg (by omega)]
    simp only [bind_ok_iff, u2_ok_iff, bytes_ok_iff, during_ok_iff,
      offset_ok_iff, h]
    refine ⟨bytes, t₄, ⟨hn, h₄⟩, k, t₅, h₅, _, t₆, ⟨by rw [length_entries]; omega, h₆⟩, as, s',
      ⟨hnest, hcount, ts, hfit, by rwa [hoffset]⟩, _, s', ⟨rfl, rfl⟩, ?_⟩
    rw [if_pos hstop, pure_ok_iff]
    exact ⟨rfl, rfl⟩

theorem inside_code_ok_iff {pool : Pool} {depth : Nat} {nested : Parser (List Attribute)}
    (h : ∀ s as s', nested s = .ok as s' ↔ ReadAll pool depth as s s')
    (nameIndex : UInt16) (payload : Bytes) (start : Nat) (s s' : Scan) (a : Attribute) :
    inside payload start (code nested nameIndex payload start) s = .ok a s' ↔
      ∃ maxStack maxLocals bytes entries as ts,
        a = .code nameIndex maxStack maxLocals bytes as ∧ Attribute.nestings as < depth ∧
        bytes.length < 2 ^ 32 ∧ entries.length < 2 ^ 16 ∧ as.length < 2 ^ 16 ∧
        Attribute.AllFit pool as ts ∧
        Attribute.codePayload maxStack maxLocals bytes entries (Attribute.counted as ts) = payload ∧
        s.Passes [] (Attribute.notesAll as ts
          (start + 8 + bytes.length + 2 + 8 * entries.length + 2)) s' := by
  simp only [inside_ok_iff, code_ok_iff h]
  constructor
  · intro h
    obtain ⟨t, ⟨maxStack, maxLocals, bytes, entries, as, ts, rfl, hnest, -, hlen, hk, hcount, hfit,
      hstop, ⟨hrest, hoffset⟩, hnotes⟩, rfl⟩ := h
    refine ⟨maxStack, maxLocals, bytes, entries, as, ts, rfl, hnest, hlen, hk, hcount, hfit, ?_, ?_⟩
    · have hempty : t.cursor.rest = [] := by
        have hl := congrArg List.length hrest
        simp only [List.length_append] at hl hoffset
        exact List.length_eq_zero_iff.1 (by omega)
      simpa [hempty] using hrest.symm
    · exact ⟨⟨rfl, rfl⟩, hnotes⟩
  · intro h
    obtain ⟨maxStack, maxLocals, bytes, entries, as, ts, rfl, hnest, hlen, hk, hcount, hfit, rfl,
      ⟨hrest, hoffset⟩, hnotes⟩ := h
    refine ⟨⟨⟨[], start + _⟩, s'.diagnostics⟩, ⟨maxStack, maxLocals, bytes, entries, as, ts, rfl,
      hnest, ?_, hlen, hk, hcount, hfit, Nat.add_sub_cancel_left .., ⟨by simp, rfl⟩, hnotes⟩, ?_⟩
    · simp only [Attribute.codePayload, List.length_append]
      omega
    · obtain ⟨⟨rest, o⟩, ds⟩ := s
      obtain ⟨⟨rest', o'⟩, ds'⟩ := s'
      simp_all

theorem passes_attribute_iff (nameIndex : UInt16) (payload : Bytes) (notes : List Diagnostic)
    (s s' : Scan) :
    s.Passes (Bytes.u2 nameIndex ++ length4 payload ++ payload) notes s' ↔
      ∃ t₁, s.Passes (Bytes.u2 nameIndex) [] t₁ ∧ ∃ t₂, t₁.Passes (length4 payload) [] t₂ ∧
        ∃ t₃, t₂.Passes payload [] t₃ ∧ t₃.Passes [] notes s' := by
  simp only [List.append_assoc, Scan.passes_front]
  exact exists_congr fun t₁ => and_congr_right fun _ => exists_congr fun t₂ =>
    and_congr_right fun _ => Scan.passes_back t₂ s' payload notes

theorem oneAttribute_ok_iff {pool : Pool} {depth : Nat} {nested : Parser (List Attribute)}
    (h : ∀ s as s', nested s = .ok as s' ↔ ReadAll pool depth as s s') (i : Nat) (s : Scan)
    (a : Attribute) (s' : Scan) :
    oneAttribute nested pool i s = .ok a s' ↔ ReadOne pool depth a s s' := by
  simp only [oneAttribute, bind_ok_iff, u2_ok_iff, u4_ok_iff, bytes_ok_iff, offset_ok_iff,
    text_ok_iff]
  constructor
  · intro h
    obtain ⟨nameIndex, t₁, h₁, n, t₂, h₂, start, _, ⟨rfl, rfl⟩, payload, t₃, ⟨hn, h₃⟩, name, _,
      ⟨hname, rfl⟩, ha⟩ := h
    have hstart : t₂.cursor.offset = s.cursor.offset + 6 := by
      rw [h₂.offset, h₁.offset]; simp
    obtain ⟨hlen, h₂⟩ := (passes_length_iff payload t₁ t₂).2 ⟨n, h₂, hn⟩
    split at ha
    · rename_i hcode
      rw [during_ok_iff, inside_code_ok_iff h, hstart] at ha
      obtain ⟨maxStack, maxLocals, bytes, entries, as, ts, rfl, hnest, hbytes, hk, hcount, hfit,
        rfl, hp⟩ := ha
      rw [hcode] at hname
      exact ⟨hnest, ⟨entries, ts⟩, ⟨hname, hbytes, hk, hcount, hlen, hfit⟩,
        (passes_attribute_iff nameIndex _ _ s s').2 ⟨t₁, h₁, t₂, h₂, t₃, h₃, hp⟩⟩
    · rename_i hcode
      simp only [bind_ok_iff, diagnose_ok_iff, pure_ok_iff, hstart] at ha
      obtain ⟨_, t₄, h₄, rfl, rfl⟩ := ha
      have hn' : UInt32.ofNat payload.length = n := by rw [hn, UInt32.ofNat_toNat]
      refine ⟨Nat.zero_le depth, {}, ⟨hname, hcode, hlen⟩,
        (passes_attribute_iff nameIndex payload _ s t₄).2 ⟨t₁, h₁, t₂, h₂, t₃, h₃, ?_⟩⟩
      rwa [← hn'] at h₄
  · intro h
    obtain ⟨hnest, t, hfits, hp⟩ := h
    cases a with
    | code nameIndex maxStack maxLocals bytes as =>
      obtain ⟨hname, hbytes, hk, hcount, hlen, hfit⟩ := hfits
      obtain ⟨t₁, h₁, t₂, h₂, t₃, h₃, hp⟩ := (passes_attribute_iff nameIndex _ _ s s').1 hp
      have hstart : t₂.cursor.offset = s.cursor.offset + 6 := by
        rw [h₂.offset, h₁.offset]; simp [length4]
      obtain ⟨n, h₂, hn⟩ := (passes_length_iff _ t₁ t₂).1 ⟨hlen, h₂⟩
      refine ⟨nameIndex, t₁, h₁, n, t₂, h₂, _, t₂, ⟨rfl, rfl⟩, _, t₃, ⟨hn, h₃⟩, _, t₃,
        ⟨hname, rfl⟩, ?_⟩
      rw [if_pos rfl, during_ok_iff, inside_code_ok_iff h, hstart]
      exact ⟨maxStack, maxLocals, bytes, t.entries, as, t.inner, rfl, hnest, hbytes, hk, hcount,
        hfit, rfl, hp⟩
    | other nameIndex name info =>
      obtain ⟨hname, hcode, hlen⟩ := hfits
      obtain ⟨t₁, h₁, t₂, h₂, t₃, h₃, hp⟩ := (passes_attribute_iff nameIndex info _ s s').1 hp
      have hstart : t₂.cursor.offset = s.cursor.offset + 6 := by
        rw [h₂.offset, h₁.offset]; simp [length4]
      obtain ⟨n, h₂, hn⟩ := (passes_length_iff info t₁ t₂).1 ⟨hlen, h₂⟩
      refine ⟨nameIndex, t₁, h₁, n, t₂, h₂, _, t₂, ⟨rfl, rfl⟩, info, t₃, ⟨hn, h₃⟩, name, t₃,
        ⟨hname, rfl⟩, ?_⟩
      have hn' : UInt32.ofNat info.length = n := by rw [hn, UInt32.ofNat_toNat]
      rw [if_neg hcode]
      simp only [bind_ok_iff, diagnose_ok_iff, pure_ok_iff, hstart, ← hn']
      exact ⟨(), s', hp, trivial, rfl⟩

theorem chain_attributes_iff (pool : Pool) (depth : Nat) (as : List Attribute) (s s' : Scan) :
    Chain (ReadOne pool depth) as s s' ↔ Attribute.nestings as ≤ depth ∧
      ∃ ts, Attribute.AllFit pool as ts ∧
        s.Passes (Attribute.layouts as ts) (Attribute.notesAll as ts s.cursor.offset) s' := by
  induction as generalizing s with
  | nil =>
    simp [Chain, Attribute.nestings, Attribute.AllFit, Attribute.layouts, Attribute.notesAll,
      Scan.passes_nil]
  | cons a as ih =>
    simp only [Chain, ih, ReadOne, Attribute.nestings, Attribute.AllFit, Attribute.layouts,
      Attribute.notesAll, Scan.passes_append]
    constructor
    · intro h
      obtain ⟨t, ⟨hnest, table, hfit, hp⟩, hnests, ts, hfits, hps⟩ := h
      rw [hp.offset] at hps
      exact ⟨Nat.max_le.2 ⟨hnest, hnests⟩, table :: ts, ⟨hfit, hfits⟩, t, hp, hps⟩
    · intro h
      obtain ⟨hnests, ts, ⟨hfit, hfits⟩, t, hp, hps⟩ := h
      obtain ⟨hnest, hnests⟩ := Nat.max_le.1 hnests
      rw [← hp.offset] at hps
      exact ⟨t, ⟨hnest, _, hfit, hp⟩, hnests, ts.tail, hfits, hps⟩

theorem attributes_ok_iff (pool : Pool) (depth : Nat) (s : Scan) (as : List Attribute)
    (s' : Scan) :
    (attributes pool depth : Parser (List Attribute)) s = .ok as s' ↔
      ReadAll pool depth as s s' := by
  induction depth generalizing s as s' with
  | zero => simp [attributes, tooDeep, throw_ok_iff, ReadAll]
  | succ depth ih =>
    simp only [attributes, bind_ok_iff, u2_ok_iff, items_ok_iff (oneAttribute_ok_iff ih),
      chain_attributes_iff, ReadAll, Attribute.counted, Scan.passes_front]
    constructor
    · intro h
      obtain ⟨n, t, hn, hlen, hnest, ts, hfit, hp⟩ := h
      have hoffset : t.cursor.offset = s.cursor.offset + 2 := hn.offset
      obtain ⟨hlt, hcount⟩ := (passes_count_iff as s t).2 ⟨n, hn, hlen⟩
      rw [hoffset] at hp
      exact ⟨Nat.lt_succ_of_le hnest, hlt, ts, hfit, t, hcount, hp⟩
    · intro h
      obtain ⟨hnest, hlt, ts, hfit, t, hcount, hp⟩ := h
      have hoffset : t.cursor.offset = s.cursor.offset + 2 := hcount.offset
      obtain ⟨n, hn, hlen⟩ := (passes_count_iff as s t).1 ⟨hlt, hcount⟩
      rw [← hoffset] at hp
      exact ⟨n, t, hn, hlen, Nat.le_of_lt_succ hnest, ts, hfit, hp⟩

/-! Members and classes. -/

def ReadMember (pool : Pool) (depth : Nat) (m : Member) (s s' : Scan) : Prop :=
  Attribute.nestings m.attributes < depth ∧ ∃ ts, m.Fits pool ts ∧
    s.Passes (m.layout ts) (m.notes ts s.cursor.offset) s'

theorem member_ok_iff (pool : Pool) (depth : Nat) (s : Scan) (m : Member) (s' : Scan) :
    (member pool depth : Parser Member) s = .ok m s' ↔ ReadMember pool depth m s s' := by
  simp only [member, bind_ok_iff, u2_ok_iff, during_ok_iff, attributes_ok_iff, pure_ok_iff,
    ReadMember, Member.layout, Member.Fits, Member.notes, List.append_assoc, Scan.passes_front]
  constructor
  · intro h
    obtain ⟨flags, t₁, h₁, nameIndex, t₂, h₂, descriptorIndex, t₃, h₃, as, t₄,
      ⟨hnest, hlen, ts, hfit, hp⟩, rfl, rfl⟩ := h
    have hoffset : t₃.cursor.offset = s.cursor.offset + 6 := by
      rw [h₃.offset, h₂.offset, h₁.offset]; simp
    rw [hoffset] at hp
    exact ⟨hnest, ts, ⟨hlen, hfit⟩, t₁, h₁, t₂, h₂, t₃, h₃, hp⟩
  · intro h
    obtain ⟨hnest, ts, ⟨hlen, hfit⟩, t₁, h₁, t₂, h₂, t₃, h₃, hp⟩ := h
    have hoffset : t₃.cursor.offset = s.cursor.offset + 6 := by
      rw [h₃.offset, h₂.offset, h₁.offset]; simp
    refine ⟨_, t₁, h₁, _, t₂, h₂, _, t₃, h₃, _, s', ⟨hnest, hlen, ts, hfit, ?_⟩, rfl, rfl⟩
    rwa [hoffset]

theorem chain_members_iff (pool : Pool) (depth : Nat) (ms : List Member) (s s' : Scan) :
    Chain (ReadMember pool depth) ms s s' ↔
      (∀ m ∈ ms, Attribute.nestings m.attributes < depth) ∧ ∃ ts, Member.AllFit pool ms ts ∧
        s.Passes (Member.layouts ms ts) (Member.notesAll ms ts s.cursor.offset) s' := by
  induction ms generalizing s with
  | nil => simp [Chain, Member.AllFit, Member.layouts, Member.notesAll, Scan.passes_nil]
  | cons m ms ih =>
    simp only [Chain, ih, ReadMember, List.forall_mem_cons, Member.AllFit, Member.layouts,
      Member.notesAll, Scan.passes_append]
    constructor
    · intro h
      obtain ⟨t, ⟨hnest, tables, hfit, hp⟩, hnests, ts, hfits, hps⟩ := h
      rw [hp.offset] at hps
      exact ⟨⟨hnest, hnests⟩, tables :: ts, ⟨hfit, hfits⟩, t, hp, hps⟩
    · intro h
      obtain ⟨⟨hnest, hnests⟩, ts, ⟨hfit, hfits⟩, t, hp, hps⟩ := h
      rw [← hp.offset] at hps
      exact ⟨t, ⟨hnest, _, hfit, hp⟩, hnests, ts.tail, hfits, hps⟩

theorem members_ok_iff (pool : Pool) (depth : Nat) (part : Nat → String) (name : String)
    (ms : List Member) (s s' : Scan) :
    (∃ n t, (u2 name : Parser UInt16) s = .ok n t ∧
      (items n.toNat (fun i => during .parsing (part i) (member pool depth)) n.toNat 0 :
        Parser (List Member)) t = .ok ms s') ↔
      (∀ m ∈ ms, Attribute.nestings m.attributes < depth) ∧ ms.length < 2 ^ 16 ∧
      ∃ ts, Member.AllFit pool ms ts ∧ s.Passes (count ms ++ Member.layouts ms ts)
        (Member.notesAll ms ts (s.cursor.offset + 2)) s' := by
  have hitem (i : Nat) (s : Scan) (m : Member) (s' : Scan) :
      (during .parsing (part i) (member pool depth) : Parser Member) s = .ok m s' ↔
        ReadMember pool depth m s s' := by
    rw [during_ok_iff, member_ok_iff]
  simp only [u2_ok_iff, items_ok_iff hitem, chain_members_iff, Scan.passes_front]
  constructor
  · intro h
    obtain ⟨n, t, hn, hlen, hnest, ts, hfit, hp⟩ := h
    have hoffset : t.cursor.offset = s.cursor.offset + 2 := hn.offset
    obtain ⟨hlt, hcount⟩ := (passes_count_iff ms s t).2 ⟨n, hn, hlen⟩
    rw [hoffset] at hp
    exact ⟨hnest, hlt, ts, hfit, t, hcount, hp⟩
  · intro h
    obtain ⟨hnest, hlt, ts, hfit, t, hcount, hp⟩ := h
    have hoffset : t.cursor.offset = s.cursor.offset + 2 := hcount.offset
    obtain ⟨n, hn, hlen⟩ := (passes_count_iff ms s t).1 ⟨hlt, hcount⟩
    rw [← hoffset] at hp
    exact ⟨n, t, hn, hlen, hnest, ts, hfit, hp⟩

theorem interfaces_ok_iff (is : List UInt16) (s s' : Scan) :
    (∃ n t, (u2 "interfaces count" : Parser UInt16) s = .ok n t ∧
      (items n.toNat (fun i => u2 s!"interface {i}") n.toNat 0 : Parser (List UInt16)) t =
        .ok is s') ↔
      is.length < 2 ^ 16 ∧ s.Passes (count is ++ is.flatMap Bytes.u2) [] s' := by
  have hitem (i : Nat) (s : Scan) (n : UInt16) (s' : Scan) :
      (u2 s!"interface {i}" : Parser UInt16) s = .ok n s' ↔ True ∧ s.Passes (Bytes.u2 n) [] s' := by
    rw [u2_ok_iff, true_and]
  simp only [u2_ok_iff, items_ok_iff hitem, chain_passes_iff, Scan.passes_front]
  constructor
  · intro h
    obtain ⟨n, t, hn, hlen, -, hp⟩ := h
    obtain ⟨hlt, hcount⟩ := (passes_count_iff is s t).2 ⟨n, hn, hlen⟩
    exact ⟨hlt, t, hcount, hp⟩
  · intro h
    obtain ⟨hlt, t, hcount, hp⟩ := h
    obtain ⟨n, hn, hlen⟩ := (passes_count_iff is s t).1 ⟨hlt, hcount⟩
    exact ⟨n, t, hn, hlen, fun _ _ => trivial, hp⟩

theorem header_ok_iff (want minor major : UInt16) (s s' : Scan) :
    (header want : Parser (UInt16 × UInt16)) s = .ok (minor, major) s' ↔
      major = want ∧ s.Passes (Bytes.u4 magic ++ (Bytes.u2 minor ++ Bytes.u2 major)) [] s' := by
  simp only [header, bind_ok_iff, u4_ok_iff, Scan.passes_front]
  constructor
  · intro h
    obtain ⟨found, t₁, h₁, h⟩ := h
    split at h
    · simp [refuse_ok_iff] at h
    · rename_i hmagic
      simp only [bind_ok_iff, u2_ok_iff] at h
      obtain ⟨a, t₂, h₂, b, t₃, h₃, h⟩ := h
      split at h
      · simp [refuse_ok_iff] at h
      · rename_i hmajor
        obtain ⟨hv, rfl⟩ := (pure_ok_iff _ _ _ _).1 h
        cases hv
        rw [Decidable.not_not] at hmagic hmajor
        exact ⟨hmajor, t₁, hmagic ▸ h₁, t₂, h₂, h₃⟩
  · intro h
    obtain ⟨rfl, t₁, h₁, t₂, h₂, h₃⟩ := h
    refine ⟨magic, t₁, h₁, ?_⟩
    rw [if_neg (by simp)]
    simp only [bind_ok_iff, u2_ok_iff]
    refine ⟨minor, t₂, h₂, major, s', h₃, ?_⟩
    rw [if_neg (by simp), pure_ok_iff]
    exact ⟨rfl, rfl⟩

def Shallow (depth : Nat) (c : ClassFile) : Prop :=
  (∀ m ∈ c.fields, Attribute.nestings m.attributes < depth) ∧
    (∀ m ∈ c.methods, Attribute.nestings m.attributes < depth) ∧
    Attribute.nestings c.attributes < depth

theorem passes_head_iff (c : ClassFile) (s s' : Scan) :
    s.Passes c.headLayout [] s' ↔
      ∃ t₁, s.Passes (Bytes.u4 magic ++ (Bytes.u2 c.minor ++ Bytes.u2 c.major)) [] t₁ ∧
      ∃ t₂, t₁.Passes (Bytes.u2 c.pool.count) [] t₂ ∧
      ∃ t₃, t₂.Passes (c.pool.entries.flatMap Constant.layout) [] t₃ ∧
      ∃ t₄, t₃.Passes (Bytes.u2 c.flags.bits) [] t₄ ∧ ∃ t₅, t₄.Passes (Bytes.u2 c.thisClass) [] t₅ ∧
      ∃ t₆, t₅.Passes (Bytes.u2 c.superClass) [] t₆ ∧
        t₆.Passes (count c.interfaces ++ c.interfaces.flatMap Bytes.u2) [] s' := by
  simp only [headLayout, List.append_assoc, Scan.passes_front]
  constructor
  · intro h
    obtain ⟨a, ha, b, hb, t₁, h₁, t₂, h₂, t₃, h₃, t₄, h₄, t₅, h₅, t₆, h₆, d, hd, h₇⟩ := h
    exact ⟨t₁, ⟨a, ha, b, hb, h₁⟩, t₂, h₂, t₃, h₃, t₄, h₄, t₅, h₅, t₆, h₆, d, hd, h₇⟩
  · intro h
    obtain ⟨t₁, ⟨a, ha, b, hb, h₁⟩, t₂, h₂, t₃, h₃, t₄, h₄, t₅, h₅, t₆, h₆, d, hd, h₇⟩ := h
    exact ⟨a, ha, b, hb, t₁, h₁, t₂, h₂, t₃, h₃, t₄, h₄, t₅, h₅, t₆, h₆, d, hd, h₇⟩

theorem passes_layout_iff (c : ClassFile) (t : Tables) (s s' : Scan) :
    s.Passes (c.layout t) (c.notes t s.cursor.offset) s' ↔
      ∃ t₁, s.Passes c.headLayout [] t₁ ∧
      ∃ t₂, t₁.Passes (c.fieldsLayout t)
        (Member.notesAll c.fields t.fields (t₁.cursor.offset + 2)) t₂ ∧
      ∃ t₃, t₂.Passes (c.methodsLayout t)
        (Member.notesAll c.methods t.methods (t₂.cursor.offset + 2)) t₃ ∧
        t₃.Passes (Attribute.counted c.attributes t.attributes)
          (Attribute.notesAll c.attributes t.attributes (t₃.cursor.offset + 2)) s' := by
  simp only [layout, notes, List.append_assoc, Scan.passes_front _ _ c.headLayout,
    Scan.passes_append]
  refine exists_congr fun t₁ => and_congr_right fun h₁ => ?_
  rw [← h₁.offset]
  refine exists_congr fun t₂ => and_congr_right fun h₂ => ?_
  rw [← h₂.offset]
  refine exists_congr fun t₃ => and_congr_right fun h₃ => ?_
  rw [← h₃.offset]

theorem body_ok_iff (want : UInt16) (depth : Nat) (s s' : Scan) (c : ClassFile) :
    (body want depth : Parser ClassFile) s = .ok c s' ↔ Shallow depth c ∧ ∃ t, c.WellFormed want t ∧
      s.Passes (c.layout t) (c.notes t s.cursor.offset) s' := by
  simp only [body, bind_ok_iff, during_ok_iff, passes_layout_iff]
  constructor
  · intro h
    obtain ⟨⟨minor, major⟩, t₁, h₁, n, t₂, h₂, p, t₃, h₃, flags, t₄, h₄, thisClass, t₅, h₅,
      superClass, t₆, h₆, ni, ti, hi, is, t₇, h₇, nf, tf, hf, fs, t₈, h₈, nm, tm, hm, ms, t₉, h₉,
      as, t₁₀, h₁₀, hc⟩ := h
    obtain ⟨rfl, rfl⟩ := (pure_ok_iff _ _ _ _).1 hc
    rw [header_ok_iff] at h₁
    rw [pool_ok_iff] at h₃
    rw [u2_ok_iff] at h₂ h₄ h₅ h₆
    rw [attributes_ok_iff] at h₁₀
    obtain ⟨hmajor, h₁⟩ := h₁
    obtain ⟨rfl, hentries, hconstants, h₃⟩ := h₃
    obtain ⟨hinterfaces, h₇⟩ := (interfaces_ok_iff is t₆ t₇).1 ⟨ni, ti, hi, h₇⟩
    obtain ⟨hnf, hlf, tsf, hff, h₈⟩ := (members_ok_iff p depth _ _ fs t₇ t₈).1 ⟨nf, tf, hf, h₈⟩
    obtain ⟨hnm, hlm, tsm, hfm, h₉⟩ := (members_ok_iff p depth _ _ ms t₈ t₉).1 ⟨nm, tm, hm, h₉⟩
    obtain ⟨hna, hla, tsa, hfa, h₁₀⟩ := h₁₀
    exact ⟨⟨hnf, hnm, hna⟩, ⟨tsf, tsm, tsa⟩,
      ⟨hmajor, hentries, hconstants, hinterfaces, ⟨hlf, hff⟩, ⟨hlm, hfm⟩, ⟨hla, hfa⟩⟩,
      t₇, (passes_head_iff _ s t₇).2 ⟨t₁, h₁, t₂, h₂, t₃, h₃, t₄, h₄, t₅, h₅, t₆, h₆, h₇⟩,
      t₈, h₈, t₉, h₉, h₁₀⟩
  · intro h
    obtain ⟨⟨hnf, hnm, hna⟩, t, hwf, t₇, hhead, t₈, h₈, t₉, h₉, h₁₀⟩ := h
    obtain ⟨t₁, h₁, t₂, h₂, t₃, h₃, t₄, h₄, t₅, h₅, t₆, h₆, h₇⟩ := (passes_head_iff c s t₇).1 hhead
    obtain ⟨ni, ti, hi, h₇⟩ := (interfaces_ok_iff _ t₆ t₇).2 ⟨hwf.interfaces, h₇⟩
    obtain ⟨nf, tf, hf, h₈⟩ := (members_ok_iff c.pool depth (fun i => s!"field {i}") "fields count"
      c.fields t₇ t₈).2 ⟨hnf, hwf.fields.1, t.fields, hwf.fields.2, h₈⟩
    obtain ⟨nm, tm, hm, h₉⟩ := (members_ok_iff c.pool depth (fun i => s!"method {i}")
      "methods count" c.methods t₈ t₉).2 ⟨hnm, hwf.methods.1, t.methods, hwf.methods.2, h₉⟩
    exact ⟨(c.minor, c.major), t₁, (header_ok_iff want _ _ s t₁).2 ⟨hwf.major, h₁⟩,
      c.pool.count, t₂, (u2_ok_iff _ _ _ _).2 h₂,
      c.pool, t₃, (pool_ok_iff _ t₂ t₃ _).2 ⟨rfl, hwf.entries, hwf.constants, h₃⟩,
      c.flags.bits, t₄, (u2_ok_iff _ _ _ _).2 h₄, c.thisClass, t₅, (u2_ok_iff _ _ _ _).2 h₅,
      c.superClass, t₆, (u2_ok_iff _ _ _ _).2 h₆, ni, ti, hi, c.interfaces, t₇, h₇,
      nf, tf, hf, c.fields, t₈, h₈, nm, tm, hm, c.methods, t₉, h₉, c.attributes, s',
      (attributes_ok_iff _ _ _ _ _).2 ⟨hna, hwf.attributes.1, t.attributes, hwf.attributes.2, h₁₀⟩,
      (pure_ok_iff _ _ _ _).2 ⟨rfl, rfl⟩⟩

theorem trailing_ok (s : Scan) :
    ∃ s', (trailing : Parser Unit) s = .ok () s' ∧ s'.diagnostics = s.diagnostics ++
      if s.cursor.rest = [] then [] else [.trailingData (s.cursor.offset + 1)] := by
  obtain ⟨⟨rest, o⟩, ds⟩ := s
  cases rest with
  | nil => exact ⟨_, rfl, by simp⟩
  | cons b rest => exact ⟨_, rfl, by simp⟩

theorem classFile_ok_iff (want : UInt16) (depth : Nat) (s s' : Scan) (c : ClassFile) :
    (classFile want depth : Parser ClassFile) s = .ok c s' ↔
      ∃ t, (body want depth : Parser ClassFile) s = .ok c t ∧
        (trailing : Parser Unit) t = .ok () s' := by
  simp only [classFile, bind_ok_iff, pure_ok_iff]
  constructor
  · intro h
    obtain ⟨c', t, hc, _, t', ht, rfl, rfl⟩ := h
    exact ⟨t, hc, ht⟩
  · intro h
    obtain ⟨t, hc, ht⟩ := h
    exact ⟨c, t, hc, (), s', ht, rfl, rfl⟩

end Parser

/-- No class is nested deeper than its layout has room for. -/
theorem shallow_of_length_le (c : ClassFile) (t : Tables) (n : Nat)
    (h : (c.layout t).length ≤ n) : Parser.Shallow (depthFor n) c := by
  have hlen : (Member.layouts c.fields t.fields).length +
      (Member.layouts c.methods t.methods).length +
      (Attribute.layouts c.attributes t.attributes).length ≤ n := by
    simp only [layout, fieldsLayout, methodsLayout, Attribute.counted, List.length_append] at h
    omega
  refine ⟨fun m hm => ?_, fun m hm => ?_, ?_⟩
  · have := Member.nestings_le c.fields t.fields m hm
    simp only [depthFor]; omega
  · have := Member.nestings_le c.methods t.methods m hm
    simp only [depthFor]; omega
  · have := Attribute.nestings_le c.attributes t.attributes
    simp only [depthFor]; omega

/-- What `parse` gives for a class and its anomalies: those of the layout, and one more if bytes
are left over. -/
theorem parse_eq_iff (want : UInt16) (data : Bytes) (c : ClassFile) (ds : List Diagnostic) :
    parse want data = (.ok c, ds) ↔ ∃ (t : Tables) (trailing : Bytes),
      c.WellFormed want t ∧ data = c.layout t ++ trailing ∧
      ds = c.notes t 0 ++
        if trailing = [] then [] else [.trailingData ((c.layout t).length + 1)] := by
  have hparse : parse want data = (.ok c, ds) ↔
      ∃ s', (Parser.classFile want (depthFor data.length) : Parser ClassFile)
        { cursor := ⟨data, 0⟩ } = .ok c s' ∧ s'.diagnostics = ds := by
    rw [parse, parseTo]
    cases (Parser.classFile want (depthFor data.length) : Parser ClassFile)
      { cursor := ⟨data, 0⟩ } with
    | ok c' s' => simp [and_assoc]
    | error e s' => simp
  simp only [hparse, Parser.classFile_ok_iff, Parser.body_ok_iff]
  constructor
  · intro h
    obtain ⟨s', ⟨u, ⟨-, t, hwf, ⟨hrest, hoffset⟩, hnotes⟩, htrailing⟩, rfl⟩ := h
    obtain ⟨v, hv, hvd⟩ := Parser.trailing_ok u
    obtain rfl : v = s' := by simpa [htrailing] using hv.symm
    exact ⟨t, u.cursor.rest, hwf, hrest, by simpa [hnotes, hoffset] using hvd⟩
  · intro h
    obtain ⟨t, trailing, hwf, rfl, rfl⟩ := h
    let u : Scan := ⟨⟨trailing, (c.layout t).length⟩, c.notes t 0⟩
    obtain ⟨s', hs', hds⟩ := Parser.trailing_ok u
    refine ⟨s', ⟨u, ⟨?_, t, hwf, ⟨rfl, by simp [u]⟩, by simp [u]⟩, hs'⟩, hds⟩
    exact shallow_of_length_le c t _ (by simp)

/-- A class file is read from exactly the inputs that start with a layout of it, for some exception
tables, whatever follows. -/
theorem parse_ok_iff_layout (want : UInt16) (data : Bytes) (c : ClassFile) :
    (parse want data).1 = .ok c ↔ ∃ (tables : Tables) (trailing : Bytes),
      c.WellFormed want tables ∧ data = c.layout tables ++ trailing := by
  constructor
  · intro h
    obtain ⟨t, trailing, hwf, hdata, -⟩ := (parse_eq_iff want data c (parse want data).2).1
      (Prod.ext h rfl)
    exact ⟨t, trailing, hwf, hdata⟩
  · intro h
    obtain ⟨t, trailing, hwf, hdata⟩ := h
    rw [(parse_eq_iff want data c _).2 ⟨t, trailing, hwf, hdata, rfl⟩]

end ClassFile

end ClassMachine
