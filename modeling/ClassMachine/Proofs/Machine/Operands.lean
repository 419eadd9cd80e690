import ClassMachine.Machine.Disassembly
import ClassMachine.Proofs.ClassFile.Indexing
import ClassMachine.Proofs.Machine.Encoding

/-! Instructions whose operands are bytes of the code. How many operand bytes an opcode has is known
where an instruction is decoded; which of them are read depends on the opcode, of which there is a
second table. The bytes of an instruction that was decoded are all there (`agrees_decode`), and so
is every byte that is read for it (`instruction?_of`). -/
namespace ClassMachine.Indexing
open Machine (Cause Listing)

structure Raw where
  pc : Int
  op : UInt8
  operands : Bytes

namespace Raw

def of (pc : Int) (i : Instruction) : Raw := ⟨pc, i.opcode, i.operands⟩

def u1 (raw : Raw) : Option UInt8 := at? raw.operands 0

def i1 (raw : Raw) (i : Nat) : Option Int8 := (at? raw.operands i).map UInt8.toInt8

def u2 (raw : Raw) : Option UInt16 := do
  let x ← at? raw.operands 0
  let y ← at? raw.operands 1
  pure (Bytes.toU2 x y)

def i2 (raw : Raw) : Option Int16 := raw.u2.map UInt16.toInt16

/-- The instruction, of whose operands only those bytes are read that the opcode is known to have.
-/
def instruction? (raw : Raw) : Option Instruction :=
  match raw.op with
  | 0x10 => do return .bipush (← raw.i1 0)
  | 0x11 => do return .sipush (← raw.i2)
  | 0x12 => do return .ldc (← raw.u1)
  | 0x13 => do return .ldcWide (← raw.u2)
  | 0x15 => do return .load .int (← raw.u1)
  | 0x19 => do return .load .reference (← raw.u1)
  | 0x36 => do return .store .int (← raw.u1)
  | 0x3A => do return .store .reference (← raw.u1)
  | 0x84 => do return .iinc (← raw.u1) (← raw.i1 1)
  | 0x99 => do return .branch .eqZero (← raw.i2)
  | 0x9A => do return .branch .neZero (← raw.i2)
  | 0xA1 => do return .branch .less (← raw.i2)
  | 0xA2 => do return .branch .greaterEq (← raw.i2)
  | 0xA7 => do return .branch .always (← raw.i2)
  | 0xB2 => do return .getstatic (← raw.u2)
  | 0xB6 => do return .invoke .virtual (← raw.u2)
  | 0xB7 => do return .invoke .special (← raw.u2)
  | 0xB8 => do return .invoke .static (← raw.u2)
  | 0xBB => do return .new (← raw.u2)
  | op => (Shape.ofOpcode op).map Shape.zero

end Raw

/-- The instruction at `pc`, with its operands cut out of the code. -/
def decode (code : Bytes) (pc : Int) : OptionT (Except Cause) Raw := do
  if pc < 0 ∨ code.length ≤ pc then fail (.ranOff pc)
  else
    let op ← within (at? code pc)
    match Shape.ofOpcode op with
    | none => fail (.unknownOpcode op pc)
    | some shape =>
      if code.length < pc + 1 + shape.width then
        fail (.shortOperands op pc shape.width (code.length - pc - 1).toNat)
      else
        let operands ← within (slice? code (pc + 1) (pc + 1 + shape.width))
        pure ⟨pc, op, operands⟩

section Decoding
variable {before rest : Bytes} {op : UInt8}

theorem slice?_middle {n : Nat} (h : n ≤ rest.length) :
    slice? (before ++ op :: rest) (before.length + 1) (before.length + 1 + n) =
      some (rest.take n) := by
  have hslice : slice? (before ++ op :: rest) (before.length + 1 : Nat)
      (before.length + 1 + n : Nat) =
      some (((before ++ op :: rest).take (before.length + 1 + n)).drop (before.length + 1)) :=
    slice?_natCast (by omega) (by simp; omega)
  have hcut : ((before ++ op :: rest).take (before.length + 1 + n)).drop (before.length + 1) =
      rest.take n := by
    rw [List.drop_take]
    simp
  rw [hcut] at hslice
  exact_mod_cast hslice

theorem of_eq {i : Instruction} {operands : Bytes} (h : i.encode = op :: operands) (pc : Int) :
    Raw.of pc i = ⟨pc, op, operands⟩ := by
  obtain ⟨hop, hoperands⟩ := List.cons.inj h
  rw [Raw.of, hop, hoperands]

/-- Inside of the code the opcode says how many bytes have to follow. -/
theorem agrees_decode_middle :
    Agrees (decode (before ++ op :: rest) before.length)
      (Raw.of before.length <$> Machine.decodeBytes before.length (op :: rest)) := by
  have hlen : (before ++ op :: rest).length = before.length + (rest.length + 1) :=
    List.length_append
  have hin : ¬ ((before.length : Int) < 0 ∨
      ((before ++ op :: rest).length : Int) ≤ before.length) := by omega
  have hfits (n : Nat) (hn : n ≤ rest.length) :
      ¬ ((before ++ op :: rest).length : Int) < before.length + 1 + n := by omega
  have hshort (n : Nat) (hn : rest.length < n) :
      ((before ++ op :: rest).length : Int) < before.length + 1 + n := by omega
  have hgot : (((before ++ op :: rest).length : Int) - before.length - 1).toNat = rest.length := by
    omega
  rw [decode, if_neg hin, within_some at?_middle]
  cases hs : Shape.ofOpcode op with
  | none =>
    simp only [Machine.decodeBytes, hs]
    exact agrees_fail _
  | some shape =>
    dsimp only
    by_cases hwidth : shape.width ≤ rest.length
    · obtain ⟨i, hi, hbytes⟩ := Machine.decodeBytes_of_fits hs hwidth before.length
      rw [if_neg (hfits _ hwidth), within_some (slice?_middle hwidth), hi, ← of_eq hbytes]
      exact agrees_pure _
    · rw [if_pos (hshort _ (Nat.lt_of_not_le hwidth)), hgot,
        Machine.decodeBytes_of_short hs hwidth]
      exact agrees_fail _

/-- To cut out the operands is to decode, and the bytes are those of the instruction. -/
theorem agrees_decode (code : Bytes) (pc : Int) :
    Agrees (decode code pc) (Raw.of pc <$> Machine.decode code pc) := by
  rw [Machine.decode]
  by_cases hneg : pc < 0
  · rw [decode, if_pos (Or.inl hneg), if_pos hneg]
    exact agrees_fail _
  · rw [if_neg hneg]
    by_cases hend : code.length ≤ pc
    · rw [decode, if_pos (Or.inr hend), List.drop_eq_nil_of_le (by omega)]
      exact agrees_fail _
    · have hlt : pc.toNat < code.length := by omega
      have hcode : code = code.take pc.toNat ++ code[pc.toNat] :: code.drop (pc.toNat + 1) := by
        rw [← List.drop_eq_getElem_cons hlt, List.take_append_drop]
      have hpc : pc = (code.take pc.toNat).length := by
        rw [List.length_take_of_le (by omega)]
        omega
      have h := @agrees_decode_middle (code.take pc.toNat) (code.drop (pc.toNat + 1)) code[pc.toNat]
      rwa [← hcode, ← hpc, ← List.drop_eq_getElem_cons hlt] at h

theorem decode_run (code : Bytes) (pc : Int) : (decode code pc).run =
    match Machine.decode code pc with
    | .ok i => .ok (some (Raw.of pc i))
    | .error cause => .error cause := by
  rw [agrees_decode]
  cases Machine.decode code pc <;> rfl

end Decoding

section Reading
variable (pc : Int) (op : UInt8)

theorem u2_of_u2 (n : UInt16) : (Raw.mk pc op (Bytes.u2 n)).u2 = some n := by
  change some (Bytes.toU2 _ _) = some n
  rw [(Bytes.u2_eq_iff n _ _).1 rfl]

theorem i2_of_u2 (n : Int16) : (Raw.mk pc op (Bytes.u2 n.toUInt16)).i2 = some n := by
  rw [Raw.i2, u2_of_u2]
  rfl

/-- The second table is that of the opcodes: the operands of an instruction are read as they were
written. -/
theorem instruction?_of (i : Instruction) : (Raw.of pc i).instruction? = some i := by
  have hindex (op : UInt8) (build : UInt16 → Instruction) (n : UInt16) :
      (do return build (← (Raw.mk pc op (Bytes.u2 n)).u2)) = some (build n) := by
    rw [u2_of_u2]
    rfl
  have hnumber (op : UInt8) (build : Int16 → Instruction) (n : Int16) :
      (do return build (← (Raw.mk pc op (Bytes.u2 n.toUInt16)).i2)) = some (build n) := by
    rw [i2_of_u2]
    rfl
  cases i with
  | iconst n => fin_cases n <;> rfl
  | sipush n => exact hnumber _ .sipush n
  | ldcWide index => exact hindex _ .ldcWide index
  | load kind slot => cases kind <;> rfl
  | loadShort kind n => cases kind <;> fin_cases n <;> rfl
  | store kind slot => cases kind <;> rfl
  | storeShort kind n => cases kind <;> fin_cases n <;> rfl
  | branch test offset => cases test <;> exact hnumber _ _ offset
  | getstatic index => exact hindex _ .getstatic index
  | invoke mode index => cases mode <;> exact hindex _ _ index
  | new index => exact hindex _ .new index
  | _ => rfl

def instructionAt (code : Bytes) (pc : Int) : OptionT (Except Cause) Instruction := do
  let raw ← decode code pc
  within raw.instruction?

theorem agrees_instructionAt (code : Bytes) :
    Agrees (instructionAt code pc) (Machine.decode code pc) := by
  have hdecode := agrees_decode code pc
  cases hi : Machine.decode code pc with
  | error cause =>
    rw [hi] at hdecode
    rw [instructionAt, eq_fail_of_agrees hdecode]
    rfl
  | ok i =>
    rw [hi] at hdecode
    rw [instructionAt, eq_pure_of_agrees hdecode, pure_bind]
    exact agrees_within (instruction?_of pc i)

end Reading

/-! Printing. -/

section Text
variable (pool : Pool)

instance : Listing (OptionT Id) where
  decode code pc := settled (instructionAt code pc)
  meaning pool index := settled (Machine.meaning pool index)

def instructionText (raw : Raw) : Option Bytes := do
  let i ← raw.instruction?
  (Listing.instructionText pool raw.pc i : OptionT Id Bytes)

def disassemble (code : Bytes) : Option (List Bytes × Option Cause) :=
  (Listing.disassemble pool code : OptionT Id (List Bytes × Option Cause))

variable {pool}

theorem agrees_meaning (index : UInt16) :
    Agrees (m := Id) (Listing.meaning pool index) (Listing.meaning pool index) := by
  refine agrees_settled (agrees_bind agrees_kindAt fun kind => ?_)
  refine agrees_ite (fun _ => ?_) fun _ => agrees_ite (fun _ => ?_) fun _ => ?_
  · exact agrees_bind agrees_stringValue fun _ => agrees_pure _
  · exact agrees_bind agrees_className fun _ => agrees_pure _
  · refine agrees_ite (fun _ => ?_) fun _ => agrees_ite (fun _ => ?_) fun _ => agrees_pure _
    · exact agrees_bind (agrees_member _) fun _ => agrees_pure _
    · exact agrees_bind agrees_method fun _ => agrees_pure _

theorem agrees_constantText (index : UInt16) :
    Agrees (m := Id) (Listing.constantText pool index) (Listing.constantText pool index) := by
  refine agrees_bind (agrees_meaning index) fun found => ?_
  cases found <;> exact agrees_pure _

theorem agrees_instructionText (pc : Int) (i : Instruction) :
    Agrees (m := Id) (Listing.instructionText pool pc i) (Listing.instructionText pool pc i) := by
  refine agrees_bind ?_ fun operands => agrees_pure _
  cases i with
  | ldc | ldcWide | getstatic | invoke | new => exact agrees_constantText _
  | _ => exact agrees_pure _

theorem agrees_listingFrom (code : Bytes) (pc : Nat) :
    Agrees (m := Id) (Listing.listingFrom code pc) (Listing.listingFrom code pc) := by
  induction hleft : code.length - pc using Nat.strongRecOn generalizing pc with
  | ind left ih =>
    rw [Listing.listingFrom, Listing.listingFrom]
    refine agrees_ite (fun hlt => ?_) fun _ => agrees_pure _
    refine agrees_bind (agrees_settled (agrees_instructionAt _ code)) fun found => ?_
    cases found with
    | error cause => exact agrees_pure _
    | ok i =>
      have hlength : 0 < i.length := Nat.succ_pos _
      exact agrees_bind (ih _ (by omega) _ rfl) fun _ => agrees_pure _

theorem disassemble_eq (code : Bytes) :
    disassemble pool code = some (Machine.disassemble pool code) := by
  have hagrees : Agrees (m := Id) (Listing.disassemble pool code) (Listing.disassemble pool code) :=
    agrees_bind (agrees_listingFrom code 0) fun _ =>
      agrees_bind (agrees_mapM (fun _ => agrees_instructionText _ _) _) fun _ => agrees_pure _
  exact hagrees

end Text

end ClassMachine.Indexing
