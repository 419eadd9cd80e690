import Mathlib.Data.Fintype.Basic
import Mathlib.Tactic.FinCases
import ClassMachine.Machine.Disassembly
import ClassMachine.Proofs.ClassFile.Reading

/-! The bytes of instructions. An instruction is decoded exactly where its bytes stand
(`decodeBytes_ok_iff`, `decode_ok_iff`), so no two instructions start with the same bytes. A listing
takes one instruction after the other off the code (`listing_induction`). -/
namespace ClassMachine

def Shape.Writes (op : UInt8) : Shape → Prop
  | .plain i => i.encode = [op]
  | .byte build => ∀ a, (build a).encode = [op, a]
  | .pair build => ∀ a b, (build a b).encode = [op, a, b]

theorem Shape.writes_of_ofOpcode {op : UInt8} {shape : Shape} (h : ofOpcode op = some shape) :
    shape.Writes op := by
  have hu2 (a b : UInt8) : Bytes.u2 (Bytes.toU2 a b) = [a, b] := (Bytes.u2_eq_iff _ a b).2 rfl
  unfold ofOpcode at h
  -- Each of the splits leaves the opcodes of one shape.
  cases shape with
  | plain i =>
    split at h
    all_goals cases h
    all_goals rfl
  | byte build =>
    split at h
    all_goals cases h
    all_goals exact fun a => rfl
  | pair build =>
    split at h
    all_goals cases h
    all_goals simp [Writes, Instruction.encode, Instruction.opcode, Instruction.operands, hu2]

/-- The name printed for an opcode is that of each instruction with this opcode. -/
theorem Instruction.mnemonic_opcode (i : Instruction) :
    ∃ shape, Shape.ofOpcode i.opcode = some shape ∧ shape.zero.mnemonic = i.mnemonic := by
  cases i with
  | iconst n => fin_cases n <;> exact ⟨_, rfl, rfl⟩
  | load kind slot => cases kind <;> exact ⟨_, rfl, rfl⟩
  | loadShort kind n => cases kind <;> fin_cases n <;> exact ⟨_, rfl, rfl⟩
  | store kind slot => cases kind <;> exact ⟨_, rfl, rfl⟩
  | storeShort kind n => cases kind <;> fin_cases n <;> exact ⟨_, rfl, rfl⟩
  -- the operands differ, so the names have to be unfolded before they are compared
  | branch test offset =>
    cases test <;>
      exact ⟨_, rfl, by simp only [Shape.jump, Shape.wide, Shape.zero, mnemonic]⟩
  | invoke mode index =>
    cases mode <;> exact ⟨_, rfl, by simp only [Shape.wide, Shape.zero, mnemonic]⟩
  | _ => exact ⟨_, rfl, by simp only [Shape.wide, Shape.zero, mnemonic]⟩

theorem Instruction.utf8_mnemonic (i : Instruction) : utf8 i.mnemonic = opcodeName i.opcode := by
  obtain ⟨shape, hshape, hmnemonic⟩ := i.mnemonic_opcode
  rw [opcodeName, hshape, ← hmnemonic]

namespace Machine

theorem decodeBytes_wide {op : UInt8} (build : UInt16 → Instruction)
    (h : Shape.ofOpcode op = some (.wide build)) (pc : Int) (n : UInt16) (rest : Bytes) :
    decodeBytes pc (op :: (Bytes.u2 n ++ rest)) = .ok (build n) := by
  simp only [decodeBytes, h, Shape.wide, Bytes.u2, List.cons_append]
  rw [(Bytes.u2_eq_iff n _ _).1 rfl]

theorem decodeBytes_encode (pc : Int) (i : Instruction) (rest : Bytes) :
    decodeBytes pc (i.encode ++ rest) = .ok i := by
  cases i with
  | iconst n => fin_cases n <;> rfl
  | loadShort kind n => cases kind <;> fin_cases n <;> rfl
  | storeShort kind n => cases kind <;> fin_cases n <;> rfl
  | load kind slot => cases kind <;> rfl
  | store kind slot => cases kind <;> rfl
  | sipush n => exact decodeBytes_wide (fun n => .sipush n.toInt16) rfl pc n.toUInt16 rest
  | ldcWide index => exact decodeBytes_wide .ldcWide rfl pc index rest
  | getstatic index => exact decodeBytes_wide .getstatic rfl pc index rest
  | new index => exact decodeBytes_wide .new rfl pc index rest
  | branch test offset =>
    cases test <;> exact decodeBytes_wide (fun n => .branch _ n.toInt16) rfl pc offset.toUInt16 rest
  | invoke mode index => cases mode <;> exact decodeBytes_wide (.invoke _) rfl pc index rest
  | _ => rfl

/-- The bytes of an instruction can be told from what comes behind them. -/
theorem encode_append_inj {i j : Instruction} {s t : Bytes}
    (h : i.encode ++ s = j.encode ++ t) : i = j ∧ s = t := by
  have hi := decodeBytes_encode 0 i s
  rw [h, decodeBytes_encode] at hi
  cases hi
  exact ⟨rfl, List.append_cancel_left h⟩

section Operands
variable {op : UInt8} {shape : Shape} {rest : Bytes} (hs : Shape.ofOpcode op = some shape)
include hs

theorem decodeBytes_of_fits (h : shape.width ≤ rest.length) (pc : Int) :
    ∃ i, decodeBytes pc (op :: rest) = .ok i ∧ i.encode = op :: rest.take shape.width := by
  have hw := Shape.writes_of_ofOpcode hs
  cases shape with
  | plain i => exact ⟨i, by simp only [decodeBytes, hs], hw⟩
  | byte build =>
    cases rest with
    | nil => exact absurd h (by simp [Shape.width])
    | cons a rest => exact ⟨build a, by simp only [decodeBytes, hs], hw a⟩
  | pair build =>
    rcases rest with _ | ⟨a, _ | ⟨b, rest⟩⟩
    · exact absurd h (by simp [Shape.width])
    · exact absurd h (by simp [Shape.width])
    · exact ⟨build a b, by simp only [decodeBytes, hs], hw a b⟩

theorem decodeBytes_of_short (h : ¬ shape.width ≤ rest.length) (pc : Int) :
    decodeBytes pc (op :: rest) = .error (.shortOperands op pc shape.width rest.length) := by
  cases shape with
  | plain i => exact absurd (Nat.zero_le _) h
  | byte build =>
    cases rest with
    | nil => simp only [decodeBytes, hs, Shape.width, List.length_nil]
    | cons a rest => exact absurd (Nat.le_add_left 1 _) h
  | pair build =>
    rcases rest with _ | ⟨a, _ | ⟨b, rest⟩⟩
    · simp only [decodeBytes, hs, Shape.width, List.length_nil]
    · simp only [decodeBytes, hs, Shape.width]
    · exact absurd (Nat.le_add_left 2 _) h

end Operands

/-- An instruction is decoded from exactly those bytes that start with its own. -/
theorem decodeBytes_ok_iff (pc : Int) (b : Bytes) (i : Instruction) :
    decodeBytes pc b = .ok i ↔ ∃ rest, b = i.encode ++ rest := by
  constructor
  · intro h
    cases b with
    | nil => cases h
    | cons op b =>
      cases hs : Shape.ofOpcode op with
      | none =>
        simp only [decodeBytes, hs] at h
        cases h
      | some shape =>
        by_cases hfits : shape.width ≤ b.length
        · obtain ⟨j, hj, hbytes⟩ := decodeBytes_of_fits hs hfits pc
          cases hj.symm.trans h
          exact ⟨b.drop shape.width, by rw [hbytes, List.cons_append, List.take_append_drop]⟩
        · cases (decodeBytes_of_short hs hfits pc).symm.trans h
  · rintro ⟨rest, rfl⟩
    exact decodeBytes_encode pc i rest

theorem decode_natCast (code : Bytes) (pc : Nat) :
    decode code pc = decodeBytes pc (code.drop pc) := by
  rw [decode, if_neg (by omega), Int.toNat_natCast]

theorem decode_ok_iff (code : Bytes) (pc : Int) (i : Instruction) :
    decode code pc = .ok i ↔
      ∃ before rest, code = before ++ (i.encode ++ rest) ∧ pc = before.length := by
  rw [decode]
  by_cases hneg : pc < 0
  · rw [if_pos hneg]
    constructor
    · intro h
      cases h
    · rintro ⟨before, rest, -, hpc⟩
      omega
  · rw [if_neg hneg, decodeBytes_ok_iff]
    constructor
    · rintro ⟨rest, hdrop⟩
      have hle : pc.toNat ≤ code.length := by
        by_contra hgt
        rw [List.drop_eq_nil_of_le (by omega)] at hdrop
        cases hdrop
      refine ⟨code.take pc.toNat, rest, ?_, ?_⟩
      · rw [← hdrop, List.take_append_drop]
      · rw [List.length_take_of_le hle]
        omega
    · rintro ⟨before, rest, rfl, rfl⟩
      exact ⟨rest, by simp⟩

/-- In the code of a sequence of instructions each of them is found behind those before it. -/
theorem decode_sequence (before after : List Instruction) (i : Instruction) :
    decode ((before ++ i :: after).flatMap Instruction.encode)
      (before.flatMap Instruction.encode).length = .ok i :=
  (decode_ok_iff _ _ i).2
    ⟨before.flatMap Instruction.encode, after.flatMap Instruction.encode, by simp, rfl⟩

theorem length_sequence_snoc (before : List Instruction) (i : Instruction) :
    ((before ++ [i]).flatMap Instruction.encode).length =
      (before.flatMap Instruction.encode).length + i.length := by
  simp [Instruction.length]

theorem length_le_of_decode {code : Bytes} {pc : Nat} {i : Instruction}
    (h : decode code pc = .ok i) : pc + i.length ≤ code.length := by
  obtain ⟨before, rest, rfl, hpc⟩ := (decode_ok_iff code pc i).1 h
  simp only [List.length_append, Instruction.length]
  omega

section Listing
variable {code : Bytes} {pc : Nat}

theorem listingFrom_of_end (h : ¬ pc < code.length) : listingFrom code pc = ([], none) := by
  rw [listingFrom, Listing.listingFrom, if_neg h]
  rfl

theorem listingFrom_of_error {cause : Cause} (h : pc < code.length)
    (hd : decode code pc = .error cause) : listingFrom code pc = ([], some cause) := by
  have hdecode : (Listing.decode code pc : Id (Except Cause Instruction)) = .error cause := hd
  rw [listingFrom, Listing.listingFrom, if_pos h, hdecode]
  rfl

theorem listingFrom_of_ok {i : Instruction} (h : pc < code.length) (hd : decode code pc = .ok i) :
    listingFrom code pc = ((pc, i) :: (listingFrom code (pc + i.length)).1,
      (listingFrom code (pc + i.length)).2) := by
  have hdecode : (Listing.decode code pc : Id (Except Cause Instruction)) = .ok i := hd
  rw [listingFrom, Listing.listingFrom, if_pos h, hdecode]
  rfl

/-- A listing is shown by induction from its end on: none is left to list, or no instruction stands
here, or one does and the rest of the listing starts behind it. -/
theorem listing_induction (code : Bytes) {motive : Nat → Prop}
    (ended : ∀ pc, code.length ≤ pc → listingFrom code pc = ([], none) → motive pc)
    (failed : ∀ (pc : Nat) cause, pc < code.length → decode code pc = .error cause →
      listingFrom code pc = ([], some cause) → motive pc)
    (listed : ∀ (pc : Nat) i rest cause, decode code pc = .ok i →
      listingFrom code (pc + i.length) = (rest, cause) →
      listingFrom code pc = ((pc, i) :: rest, cause) → motive (pc + i.length) → motive pc)
    (pc : Nat) : motive pc := by
  induction hleft : code.length - pc using Nat.strongRecOn generalizing pc with
  | ind left ih =>
    by_cases hlt : pc < code.length
    · cases hd : decode code pc with
      | error cause => exact failed pc cause hlt hd (listingFrom_of_error hlt hd)
      | ok i =>
        have hlength : 0 < i.length := Nat.succ_pos _
        exact listed pc i _ _ hd rfl (listingFrom_of_ok hlt hd) (ih _ (by omega) _ rfl)
    · exact ended pc (by omega) (listingFrom_of_end hlt)

end Listing

end Machine

end ClassMachine
