import ClassMachine.ClassFile.Parser
import ClassMachine.Proofs.Cursor

/-! What a step of reading consumes. Each statement says exactly when a step succeeds: the bytes in
front are those that write its result, and the step ends behind them. Steps are composed with
`bind_ok_iff`, and repetitions with `items_ok_iff`. -/
namespace ClassMachine

namespace Bytes

theorem u2_eq_iff (n : UInt16) (a b : UInt8) : u2 n = [a, b] ↔ toU2 a b = n := by
  have ha := a.toNat_lt
  have hb := b.toNat_lt
  have hn := n.toNat_lt
  simp only [u2, toU2, List.cons.injEq, and_true, ← UInt8.toNat_inj, ← UInt16.toNat_inj,
    UInt8.toNat_ofNat', UInt16.toNat_ofNat']
  omega

theorem u4_eq_iff (n : UInt32) (a b c d : UInt8) : u4 n = [a, b, c, d] ↔ toU4 a b c d = n := by
  have ha := a.toNat_lt
  have hb := b.toNat_lt
  have hc := c.toNat_lt
  have hd := d.toNat_lt
  have hn := n.toNat_lt
  simp only [u4, toU4, List.cons.injEq, and_true, ← UInt8.toNat_inj, ← UInt32.toNat_inj,
    UInt8.toNat_ofNat', UInt32.toNat_ofNat']
  omega

@[simp] theorem length_u2 (n : UInt16) : (u2 n).length = 2 := rfl

@[simp] theorem length_u4 (n : UInt32) : (u4 n).length = 4 := rfl

end Bytes

namespace Cursor

def Passes (c : Cursor) (b : Bytes) (c' : Cursor) : Prop :=
  c.rest = b ++ c'.rest ∧ c'.offset = c.offset + b.length

theorem u1_ok_iff (c c' : Cursor) (a : UInt8) : u1 c = .ok a c' ↔ c.Passes [a] c' := by
  obtain ⟨rest, o⟩ := c
  obtain ⟨rest', o'⟩ := c'
  cases rest with
  | nil => simp [u1, short, Passes]
  | cons x rest => simp [u1, Passes, eq_comm, and_assoc]

theorem u2_ok_iff (c c' : Cursor) (n : UInt16) : u2 c = .ok n c' ↔ c.Passes (Bytes.u2 n) c' := by
  obtain ⟨rest, o⟩ := c
  obtain ⟨rest', o'⟩ := c'
  match rest with
  | [] => simp [u2, short, Passes, Bytes.u2]
  | [x] => simp [u2, short, Passes, Bytes.u2]
  | x :: y :: rest =>
    have h := Bytes.u2_eq_iff n x y
    simp only [Bytes.u2, List.cons.injEq, and_true] at h
    simp only [u2, Passes, Bytes.u2, EStateM.Result.ok.injEq, Cursor.mk.injEq, ← h,
      List.cons_append, List.nil_append, List.cons.injEq, List.length_cons, List.length_nil]
    grind

theorem u4_ok_iff (c c' : Cursor) (n : UInt32) : u4 c = .ok n c' ↔ c.Passes (Bytes.u4 n) c' := by
  obtain ⟨rest, o⟩ := c
  obtain ⟨rest', o'⟩ := c'
  match rest with
  | [] => simp [u4, short, Passes, Bytes.u4]
  | [x] => simp [u4, short, Passes, Bytes.u4]
  | [x, y] => simp [u4, short, Passes, Bytes.u4]
  | [x, y, z] => simp [u4, short, Passes, Bytes.u4]
  | x :: y :: z :: w :: rest =>
    have h := Bytes.u4_eq_iff n x y z w
    simp only [Bytes.u4, List.cons.injEq, and_true] at h
    simp only [u4, Passes, Bytes.u4, EStateM.Result.ok.injEq, Cursor.mk.injEq, ← h,
      List.cons_append, List.nil_append, List.cons.injEq, List.length_cons, List.length_nil]
    grind

theorem take_ok_iff (n : Nat) (c c' : Cursor) (b : Bytes) :
    take n c = .ok b c' ↔ b.length = n ∧ c.Passes b c' := by
  obtain ⟨rest, o⟩ := c
  obtain ⟨rest', o'⟩ := c'
  constructor
  · intro h
    simp only [take] at h
    split at h
    · rename_i hn
      cases h
      have hlen := List.length_take_of_le hn
      exact ⟨hlen, (List.take_append_drop n rest).symm, congrArg (o + ·) hlen.symm⟩
    · simp [short] at h
  · intro h
    obtain ⟨rfl, hrest, hoffset⟩ := h
    simp only at hrest hoffset
    subst hrest hoffset
    simp [take]

theorem taking_ok_iff {α : Type} (n : Nat) (f : Bytes → α) (c c' : Cursor) (a : α) :
    taking n f c = .ok a c' ↔ ∃ b, b.length = n ∧ c.Passes b c' ∧ f b = a := by
  rw [taking, Fallible.bind_ok_iff]
  constructor
  · intro h
    obtain ⟨b, t, hb, ha⟩ := h
    obtain ⟨rfl, rfl⟩ := (Fallible.pure_ok_iff (f b) a t c').1 ha
    obtain ⟨hlen, hpasses⟩ := (take_ok_iff n c t b).1 hb
    exact ⟨b, hlen, hpasses, rfl⟩
  · intro h
    obtain ⟨b, hlen, hpasses, rfl⟩ := h
    exact ⟨b, c', (take_ok_iff n c c' b).2 ⟨hlen, hpasses⟩, rfl⟩

end Cursor

namespace ClassFile

namespace Scan

/-- From `s` the bytes `b` are consumed and `notes` added, and the state is `s'` then. -/
def Passes (s : Scan) (b : Bytes) (notes : List Diagnostic) (s' : Scan) : Prop :=
  s.cursor.Passes b s'.cursor ∧ s'.diagnostics = s.diagnostics ++ notes

theorem passes_nil (s s' : Scan) : s.Passes [] [] s' ↔ s = s' := by
  obtain ⟨⟨rest, o⟩, ds⟩ := s
  obtain ⟨⟨rest', o'⟩, ds'⟩ := s'
  simp [Passes, Cursor.Passes, eq_comm, and_assoc]

theorem passes_append (s s' : Scan) (b b' : Bytes) (n n' : List Diagnostic) :
    s.Passes (b ++ b') (n ++ n') s' ↔ ∃ t, s.Passes b n t ∧ t.Passes b' n' s' := by
  obtain ⟨⟨rest, o⟩, ds⟩ := s
  obtain ⟨⟨rest', o'⟩, ds'⟩ := s'
  constructor
  · intro h
    obtain ⟨⟨hrest, hoffset⟩, hnotes⟩ := h
    simp only [List.append_assoc, List.length_append] at hrest hoffset hnotes
    refine ⟨⟨⟨b' ++ rest', o + b.length⟩, ds ++ n⟩, ⟨⟨hrest, rfl⟩, rfl⟩, ⟨rfl, ?_⟩, ?_⟩
    · simpa [Nat.add_assoc] using hoffset
    · simpa using hnotes
  · intro h
    obtain ⟨⟨⟨restT, oT⟩, dsT⟩, ⟨⟨hrest, hoffset⟩, hnotes⟩, ⟨hrest', hoffset'⟩, hnotes'⟩ := h
    simp only at hrest hoffset hnotes hrest' hoffset' hnotes'
    subst hoffset hnotes hrest' hoffset' hnotes'
    exact ⟨⟨by simpa using hrest, by simp [Nat.add_assoc]⟩, by simp⟩

theorem passes_front (s s' : Scan) (b b' : Bytes) (n : List Diagnostic) :
    s.Passes (b ++ b') n s' ↔ ∃ t, s.Passes b [] t ∧ t.Passes b' n s' :=
  passes_append s s' b b' [] n

theorem passes_back (s s' : Scan) (b : Bytes) (n : List Diagnostic) :
    s.Passes b n s' ↔ ∃ t, s.Passes b [] t ∧ t.Passes [] n s' := by
  have h := passes_append s s' b [] [] n
  rwa [List.append_nil, List.nil_append] at h

theorem Passes.offset {s s' : Scan} {b : Bytes} {n : List Diagnostic} (h : s.Passes b n s') :
    s'.cursor.offset = s.cursor.offset + b.length := h.1.2

end Scan

namespace Parser
open Fallible Reading
variable {α : Type}

theorem field_ok_iff (activity : Activity) (part : String) (r : Reader α) (s s' : Scan) (a : α) :
    field activity part r s = .ok a s' ↔
      r s.cursor = .ok a s'.cursor ∧ s'.diagnostics = s.diagnostics := by
  obtain ⟨c, ds⟩ := s
  obtain ⟨c', ds'⟩ := s'
  simp only [field]
  cases r c with
  | ok x t => simp [eq_comm, and_assoc]
  | error e t => simp

theorem u1_ok_iff (part : String) (s s' : Scan) (a : UInt8) :
    (u1 part : Parser UInt8) s = .ok a s' ↔ s.Passes [a] [] s' := by
  simp [u1, field_ok_iff, Cursor.u1_ok_iff, Scan.Passes]

theorem u2_ok_iff (part : String) (s s' : Scan) (n : UInt16) :
    (u2 part : Parser UInt16) s = .ok n s' ↔ s.Passes (Bytes.u2 n) [] s' := by
  simp [u2, field_ok_iff, Cursor.u2_ok_iff, Scan.Passes]

theorem u4_ok_iff (part : String) (s s' : Scan) (n : UInt32) :
    (u4 part : Parser UInt32) s = .ok n s' ↔ s.Passes (Bytes.u4 n) [] s' := by
  simp [u4, field_ok_iff, Cursor.u4_ok_iff, Scan.Passes]

theorem bytes_ok_iff (activity : Activity) (part : String) (n : Nat) (s s' : Scan) (b : Bytes) :
    (bytes activity part n : Parser Bytes) s = .ok b s' ↔ b.length = n ∧ s.Passes b [] s' := by
  simp [bytes, field_ok_iff, Cursor.take_ok_iff, Scan.Passes, and_assoc]

theorem during_ok_iff (activity : Activity) (part : String) (p : Parser α) (s s' : Scan) (a : α) :
    during activity part p s = .ok a s' ↔ p s = .ok a s' := by
  simp only [during]
  cases p s with
  | ok x t => rfl
  | error e t => simp

theorem resolve_ok_iff (part : String) (x : Except Error α) (s s' : Scan) (a : α) :
    resolve part x s = .ok a s' ↔ x = .ok a ∧ s = s' := by
  cases x with
  | ok y => simpa [resolve] using pure_ok_iff y a s s'
  | error e => simpa [resolve] using throw_ok_iff (Error.during .resolving part e) a s s'

theorem text_ok_iff (part : String) (pool : Pool) (index : UInt16) (s s' : Scan) (b : Bytes) :
    (text part pool index : Parser Bytes) s = .ok b s' ↔ pool.text index = .ok b ∧ s = s' :=
  resolve_ok_iff part (pool.text index) s s' b

theorem refuse_ok_iff (e : Error) (a : α) (s s' : Scan) :
    (refuse e : Parser α) s = .ok a s' ↔ False := throw_ok_iff e a s s'

theorem diagnose_ok_iff (d : Diagnostic) (s s' : Scan) (u : Unit) :
    (diagnose d : Parser Unit) s = .ok u s' ↔ s.Passes [] [d] s' := by
  obtain ⟨⟨rest, o⟩, ds⟩ := s
  obtain ⟨⟨rest', o'⟩, ds'⟩ := s'
  simp [diagnose, Scan.Passes, Cursor.Passes, eq_comm, and_assoc]

theorem offset_ok_iff (s s' : Scan) (n : Nat) :
    (offset : Parser Nat) s = .ok n s' ↔ s.cursor.offset = n ∧ s = s' := by
  simp [offset]

theorem inside_ok_iff (payload : Bytes) (start : Nat) (p : Parser α) (s s' : Scan) (a : α) :
    inside payload start p s = .ok a s' ↔
      ∃ t, p ⟨⟨payload, start⟩, s.diagnostics⟩ = .ok a t ∧
        s' = { s with diagnostics := t.diagnostics } := by
  simp only [inside]
  cases p ⟨⟨payload, start⟩, s.diagnostics⟩ with
  | ok x t => simp [eq_comm, and_assoc]
  | error e t => simp

/-- Steps that each take one value of a list, in order. -/
def Chain (Q : α → Scan → Scan → Prop) : List α → Scan → Scan → Prop
  | [], s, s' => s = s'
  | a :: as, s, s' => ∃ t, Q a s t ∧ Chain Q as t s'

theorem items_ok_iff {Q : α → Scan → Scan → Prop} {item : Nat → Parser α}
    (h : ∀ i s a s', item i s = .ok a s' ↔ Q a s s') (room n i : Nat) (as : List α)
    (s s' : Scan) :
    items room item n i s = .ok as s' ↔ as.length = n ∧ Chain Q as s s' := by
  simp only [items]
  induction n generalizing i as s s' with
  | zero =>
    rw [inTurn, pure_ok_iff]
    cases as with
    | nil => simp [Chain]
    | cons a as => simp
  | succ n ih =>
    simp only [inTurn, bind_ok_iff, pure_ok_iff, h, ih]
    cases as with
    | nil => simp
    | cons a as =>
      simp only [List.cons.injEq, List.length_cons, Nat.add_right_cancel_iff, Chain]
      grind

theorem chain_passes_iff {ok : α → Prop} {layout : α → Bytes} (as : List α) (s s' : Scan) :
    Chain (fun a s s' => ok a ∧ s.Passes (layout a) [] s') as s s' ↔
      (∀ a ∈ as, ok a) ∧ s.Passes (as.flatMap layout) [] s' := by
  induction as generalizing s with
  | nil => simp [Chain, Scan.passes_nil]
  | cons a as ih =>
    simp only [Chain, ih, List.flatMap_cons, Scan.passes_front, List.forall_mem_cons]
    grind

end Parser

end ClassFile

end ClassMachine
