import ClassMachine.Cursor
import ClassMachine.Proofs.Fallible

/-! A cursor under any sequence of operations, with those that come after a failure. Every read
takes a number of bytes and makes something of them (`taking`), so a cursor is always behind some
beginning of the input (`after_eq_behind`). Main statement: the offset alone says what the next
operation does. -/
namespace ClassMachine
open Fallible
open Bytes (ofBigEndian)

namespace Bytes

theorem foldl_ofBigEndian_lt (b : Bytes) (m : Nat) :
    b.foldl (fun n x => n * 256 + x.toNat) m < (m + 1) * Nat.pow 256 b.length := by
  induction b generalizing m with
  | nil => exact Nat.lt_of_lt_of_eq (Nat.lt_succ_self m) (Nat.mul_one (m + 1)).symm
  | cons x b ih =>
    have hx : m * 256 + x.toNat + 1 ≤ (m + 1) * 256 := by
      have := x.toNat_lt
      omega
    calc b.foldl (fun n x => n * 256 + x.toNat) (m * 256 + x.toNat)
        < (m * 256 + x.toNat + 1) * Nat.pow 256 b.length := ih _
      _ ≤ (m + 1) * 256 * Nat.pow 256 b.length := Nat.mul_le_mul_right _ hx
      _ = (m + 1) * (Nat.pow 256 b.length * 256) := by rw [Nat.mul_assoc, Nat.mul_comm 256]

theorem ofBigEndian_mod {b : Bytes} {n : Nat} (hb : b.length = n) :
    ofBigEndian b % Nat.pow 256 n = ofBigEndian b := by
  have hlt := foldl_ofBigEndian_lt b 0
  rw [Nat.zero_add, Nat.one_mul, hb] at hlt
  exact Nat.mod_eq_of_lt hlt

end Bytes

namespace Cursor
variable {α : Type} {n : Nat} {f g : Bytes → α} {c c' : Cursor}

def taking (n : Nat) (f : Bytes → α) : Reader α := do return f (← take n)

theorem taking_of_le (h : n ≤ c.rest.length) (f : Bytes → α) :
    taking n f c = .ok (f (c.rest.take n)) ⟨c.rest.drop n, c.offset + n⟩ := by
  have htake : take n c = .ok (c.rest.take n) ⟨c.rest.drop n, c.offset + n⟩ := by
    rw [take, if_pos h]
  exact bind_of_ok htake _

theorem taking_of_lt (h : c.rest.length < n) (f : Bytes → α) : taking n f c = short n c := by
  have htake : take n c = short n c := by rw [take, if_neg (Nat.not_le.2 h)]
  exact bind_of_error htake _

theorem take_eq_taking (n : Nat) : take n = taking n id := (bind_pure (take n)).symm

theorem u1_eq_taking : u1 = taking 1 fun b => UInt8.ofNat (ofBigEndian b) := by
  funext c
  obtain ⟨rest, o⟩ := c
  rcases rest with _ | ⟨x, rest⟩
  · rfl
  · rw [taking_of_le (by simp)]
    simp [u1, ofBigEndian]

theorem u2_eq_taking : u2 = taking 2 fun b => UInt16.ofNat (ofBigEndian b) := by
  funext c
  obtain ⟨rest, o⟩ := c
  rcases rest with _ | ⟨x, _ | ⟨y, rest⟩⟩
  · rfl
  · rfl
  · rw [taking_of_le (by simp)]
    simp [u2, Bytes.toU2, ofBigEndian]

theorem u4_eq_taking : u4 = taking 4 fun b => UInt32.ofNat (ofBigEndian b) := by
  funext c
  obtain ⟨rest, o⟩ := c
  rcases rest with _ | ⟨x, _ | ⟨y, _ | ⟨z, _ | ⟨w, rest⟩⟩⟩⟩
  · rfl
  · rfl
  · rfl
  · rfl
  · rw [taking_of_le (by simp)]
    simp [u4, Bytes.toU4, ofBigEndian]

theorem truncation_of_taking {t : Truncation} (h : taking n f c = .error t c') :
    c.rest.length < n ∧ t = ⟨c.offset, n, c.rest.length⟩ := by
  by_cases hn : n ≤ c.rest.length
  · rw [taking_of_le hn] at h
    cases h
  · rw [taking_of_lt (Nat.lt_of_not_le hn)] at h
    cases h
    exact ⟨Nat.lt_of_not_le hn, rfl⟩

theorem length_of_take {b : Bytes} (h : take n c = .ok b c') : b.length = n := by
  rw [take] at h
  split at h
  · rename_i hn
    cases h
    exact List.length_take_of_le hn
  · cases h

theorem taking_congr (h : ∀ b, b.length = n → f b = g b) : taking n f = taking n g := by
  funext c
  refine bind_congr_ok fun b t hb => ?_
  rw [h b (length_of_take hb)]

inductive Operation
  | u1
  | u2
  | u4
  | bytes (n : Int)
  | skip (n : Int)
deriving DecidableEq

inductive Answer
  | number (n : Nat)
  | bytes (b : Bytes)
  | nothing
deriving DecidableEq

namespace Operation

def run : Operation → Reader Answer
  | u1 => do return .number (← Cursor.u1).toNat
  | u2 => do return .number (← Cursor.u2).toNat
  | u4 => do return .number (← Cursor.u4).toNat
  | bytes n => do return .bytes (← Cursor.bytes n)
  | skip n => do
    Cursor.skip n
    return .nothing

def width : Operation → Int
  | u1 => 1
  | u2 => 2
  | u4 => 4
  | bytes n => n
  | skip n => n

def answer : Operation → Bytes → Answer
  | u1, b | u2, b | u4, b => .number (ofBigEndian b)
  | bytes _, b => .bytes b
  | skip _, _ => .nothing

/-- Every operation takes the bytes of its width. -/
theorem run_eq_taking (op : Operation) : op.run = taking op.width.toNat op.answer := by
  cases op with
  | u1 =>
    rw [run, u1_eq_taking, taking, bind_assoc]
    exact taking_congr fun b hb => congrArg Answer.number (Bytes.ofBigEndian_mod hb)
  | u2 =>
    rw [run, u2_eq_taking, taking, bind_assoc]
    exact taking_congr fun b hb => congrArg Answer.number (Bytes.ofBigEndian_mod hb)
  | u4 =>
    rw [run, u4_eq_taking, taking, bind_assoc]
    exact taking_congr fun b hb => congrArg Answer.number (Bytes.ofBigEndian_mod hb)
  | bytes n => rfl
  | skip n =>
    rw [run, Cursor.skip, bind_assoc]
    rfl

end Operation

def after (c : Cursor) (ops : List Operation) : Cursor :=
  ops.foldl (fun c op => final (op.run c)) c

def behind (data : Bytes) (o : Nat) : Cursor := ⟨data.drop o, o⟩

variable {data : Bytes} {o : Nat}

theorem taking_behind (ho : o ≤ data.length) (n : Nat) (f : Bytes → α) :
    taking n f (behind data o) =
      if n ≤ data.length - o then .ok (f ((data.drop o).take n)) (behind data (o + n))
      else .error ⟨o, n, data.length - o⟩ (behind data data.length) := by
  have hlength : (behind data o).rest.length = data.length - o := List.length_drop
  by_cases hn : n ≤ data.length - o
  · rw [if_pos hn, taking_of_le (by omega)]
    simp only [behind, List.drop_drop]
  · rw [if_neg hn, taking_of_lt (by omega), short, hlength]
    simp only [behind, List.drop_length, Nat.add_sub_of_le ho]

theorem run_behind (ho : o ≤ data.length) (op : Operation) :
    op.run (behind data o) =
      if op.width ≤ data.length - o then
        .ok (op.answer ((data.drop o).take op.width.toNat)) (behind data (o + op.width.toNat))
      else .error ⟨o, op.width.toNat, data.length - o⟩ (behind data data.length) := by
  rw [Operation.run_eq_taking, taking_behind ho]
  by_cases hw : op.width ≤ data.length - o
  · rw [if_pos hw, if_pos (by omega)]
  · rw [if_neg hw, if_neg (by omega)]

/-- A run of operations stays inside the input. -/
theorem after_eq_behind (ops : List Operation) (ho : o ≤ data.length) :
    ∃ o' ≤ data.length, after (behind data o) ops = behind data o' := by
  induction ops generalizing o with
  | nil => exact ⟨o, ho, rfl⟩
  | cons op ops ih =>
    change ∃ o' ≤ data.length, after (final (op.run (behind data o))) ops = behind data o'
    rw [run_behind ho]
    by_cases hw : op.width ≤ data.length - o
    · rw [if_pos hw]
      exact ih (by omega)
    · rw [if_neg hw]
      exact ih (Nat.le_refl _)

theorem after_concat (c : Cursor) (ops : List Operation) (op : Operation) :
    after c (ops ++ [op]) = final (op.run (after c ops)) := by
  simp [after]

/-- Whatever was asked before, an operation succeeds exactly if the bytes that it asks for are there
behind the offset, and moves behind them; else it says how many there are and moves to the end. -/
theorem offset_decides (data : Bytes) (earlier : List Operation) (op : Operation) :
    let c := after ⟨data, 0⟩ earlier
    let c' := after ⟨data, 0⟩ (earlier ++ [op])
    (after ⟨data, 0⟩ []).offset = 0 ∧ c.offset ≤ data.length ∧
      if op.width ≤ data.length - c.offset then
        op.run c = .ok (op.answer ((data.drop c.offset).take op.width.toNat)) c' ∧
          (c'.offset : Int) = c.offset + max op.width 0
      else
        ∃ need : Nat, need = op.width ∧ c'.offset = data.length ∧
          op.run c = .error ⟨c.offset, need, data.length - c.offset⟩ c' := by
  intro c c'
  obtain ⟨o, ho, hc⟩ : ∃ o ≤ data.length, c = behind data o :=
    after_eq_behind earlier (Nat.zero_le data.length)
  have hrun := run_behind ho op
  have hc' : c' = final (op.run (behind data o)) := hc ▸ after_concat ⟨data, 0⟩ earlier op
  have hoffset : c.offset = o := congrArg Cursor.offset hc
  rw [hrun] at hc'
  refine ⟨rfl, hoffset ▸ ho, ?_⟩
  rw [hoffset]
  by_cases hw : op.width ≤ data.length - o
  · rw [if_pos hw] at hc' hrun ⊢
    rw [hc, hrun, hc']
    exact ⟨rfl, by simp only [final, behind]; omega⟩
  · rw [if_neg hw] at hc' hrun ⊢
    rw [hc, hrun, hc']
    exact ⟨op.width.toNat, by omega, rfl, rfl⟩

/-- Two of three bytes are read, then four are asked for, and then less than none. -/
example : [[], [.u2], [.u2, .u4], [.u2, .u4, .bytes (-1)]].map
    (fun ops => (after ⟨[1, 2, 3], 0⟩ ops).offset) = [0, 2, 3, 3] := by
  decide

end Cursor

end ClassMachine
