import Mathlib.Data.List.Infix
import Mathlib.Data.List.Nodup
import Mathlib.Data.Set.List
import ClassMachine.Machine.Disassembly
import ClassMachine.Proofs.Machine.Encoding
import ClassMachine.Proofs.Text

/-! Code as lines. The name of an opcode is a word that no other opcode has, and what comes behind
it tells the operands; so an instruction can be read off its line (`instructionText_inj`). A listing
takes instructions off the code until none is left at its start (`exists_listingFrom`), and these
are as many as there can be (`longest_of_stuck`). -/
namespace ClassMachine

namespace Shape

def Builds : Shape → Instruction → Prop
  | .plain j, i => i = j
  | .byte build, i => ∃ a, i = build a
  | .pair build, i => ∃ a b, i = build a b

theorem builds_of_opcode {i : Instruction} {shape : Shape} (h : ofOpcode i.opcode = some shape) :
    shape.Builds i := by
  have hdecode := Machine.decodeBytes_encode 0 i []
  simp only [List.append_nil, Instruction.encode, Machine.decodeBytes] at hdecode
  rw [h] at hdecode
  generalize i.operands = operands at hdecode
  cases shape with
  | plain j =>
    cases hdecode
    rfl
  | byte build =>
    cases operands with
    | nil => cases hdecode
    | cons a rest =>
      cases hdecode
      exact ⟨a, rfl⟩
  | pair build =>
    rcases operands with _ | ⟨a, _ | ⟨b, rest⟩⟩
    · cases hdecode
    · cases hdecode
    · cases hdecode
      exact ⟨a, b, rfl⟩

end Shape

namespace Machine
variable {pool : Pool} {pc : Int}

section Names

def opcodes : List UInt8 :=
  ((List.range 256).map UInt8.ofNat).filter fun op => (Shape.ofOpcode op).isSome

theorem nodup_opcodeNames : (opcodes.map opcodeName).Nodup := by decide +kernel

theorem blank_notMem_opcodeNames : ∀ op ∈ opcodes, 32 ∉ opcodeName op := by decide +kernel

theorem opcode_mem_opcodes (i : Instruction) : i.opcode ∈ opcodes := by
  obtain ⟨shape, hshape, -⟩ := i.mnemonic_opcode
  refine List.mem_filter.2 ⟨List.mem_map.2 ⟨i.opcode.toNat, ?_, UInt8.ofNat_toNat⟩, ?_⟩
  · exact List.mem_range.2 i.opcode.toNat_lt
  · rw [hshape]
    rfl

theorem opcode_eq_of_mnemonic {i j : Instruction} (h : utf8 i.mnemonic = utf8 j.mnemonic) :
    i.opcode = j.opcode := by
  rw [i.utf8_mnemonic, j.utf8_mnemonic] at h
  exact List.inj_on_of_nodup_map nodup_opcodeNames (opcode_mem_opcodes i) (opcode_mem_opcodes j) h

theorem blank_notMem_mnemonic (i : Instruction) : 32 ∉ utf8 i.mnemonic := by
  rw [i.utf8_mnemonic]
  exact blank_notMem_opcodeNames i.opcode (opcode_mem_opcodes i)

end Names

section Operands

def constantText (pool : Pool) (index : UInt16) : Bytes := Id.run (Listing.constantText pool index)

def operandText (pool : Pool) (pc : Int) (i : Instruction) : Bytes :=
  Id.run (Listing.operandText pool pc i)

theorem instructionText_eq (pool : Pool) (pc : Int) (i : Instruction) :
    instructionText pool pc i =
      Bytes.padLeft 4 (Bytes.signed pc) ++ utf8 ": " ++ utf8 i.mnemonic ++ operandText pool pc i :=
  rfl

theorem exists_constantText (pool : Pool) (index : UInt16) : ∃ note : Bytes, note.Spaced ∧
    constantText pool index = utf8 " #" ++ Bytes.decimal index.toNat ++ note := by
  cases hfound : (meaning pool index : Except ClassFile.Error (Option Bytes)) with
  | error e =>
    refine ⟨[], Bytes.spaced_nil, ?_⟩
    simp only [constantText, Listing.constantText, Listing.meaning, hfound, List.append_nil]
    rfl
  | ok found =>
    refine ⟨noteText found, ?_, ?_⟩
    · cases found with
      | none => exact Bytes.spaced_nil
      | some text => exact Bytes.spaced_cons _
    · simp only [constantText, Listing.constantText, Listing.meaning, hfound]
      rfl

theorem constantText_spaced (index : UInt16) : (constantText pool index).Spaced := by
  obtain ⟨note, -, htext⟩ := exists_constantText pool index
  rw [htext]
  exact Bytes.spaced_cons _

theorem numberText_spaced (n : Int) : (numberText n).Spaced := Bytes.spaced_cons _

theorem operandText_spaced (i : Instruction) : (operandText pool pc i).Spaced := by
  cases i with
  | bipush | sipush | load | store | branch => exact numberText_spaced _
  | iinc => exact Bytes.spaced_cons _
  | ldc | ldcWide | getstatic | invoke | new => exact constantText_spaced _
  | _ => exact Bytes.spaced_nil

theorem numberText_inj {m n : Int} (h : numberText m = numberText n) : m = n :=
  Bytes.signed_injective (List.append_cancel_left h)

theorem numberTexts_inj {m n m' n' : Int}
    (h : numberText m ++ numberText n = numberText m' ++ numberText n') : m = m' ∧ n = n' := by
  simp only [numberText, List.append_assoc] at h
  obtain ⟨hfirst, hsecond⟩ := Bytes.append_inj_of_spaced (Bytes.blank_notMem_signed m)
    (Bytes.blank_notMem_signed m') (numberText_spaced n) (numberText_spaced n')
    (List.append_cancel_left h)
  exact ⟨Bytes.signed_injective hfirst, numberText_inj hsecond⟩

/-- The number of a constant ends at the blank in front of what the constant stands for. -/
theorem constantText_inj {m n : UInt16} (h : constantText pool m = constantText pool n) :
    m = n := by
  obtain ⟨note, hnote, htext⟩ := exists_constantText pool m
  obtain ⟨note', hnote', htext'⟩ := exists_constantText pool n
  rw [htext, htext', List.append_assoc, List.append_assoc] at h
  obtain ⟨hnumber, -⟩ := Bytes.append_inj_of_spaced (Bytes.blank_notMem_decimal m.toNat)
    (Bytes.blank_notMem_decimal n.toNat) hnote hnote' (List.append_cancel_left h)
  exact UInt16.toNat_inj.1 (Bytes.decimal_injective hnumber)

def Legible (pool : Pool) (pc : Int) : Shape → Prop
  | .plain _ => True
  | .byte build => ∀ a a', operandText pool pc (build a) = operandText pool pc (build a') →
      build a = build a'
  | .pair build => ∀ a b a' b',
      operandText pool pc (build a b) = operandText pool pc (build a' b') → build a b = build a' b'

theorem legible_wide {build : UInt16 → Instruction}
    (h : ∀ m n, operandText pool pc (build m) = operandText pool pc (build n) →
      build m = build n) : Legible pool pc (.wide build) :=
  fun _ _ _ _ htext => h _ _ htext

theorem legible_jump (test : Test) : Legible pool pc (.jump test) := by
  refine legible_wide fun m n h => congrArg _ (Int16.toInt_inj.1 ?_)
  have htarget : pc + m.toInt16.toInt = pc + n.toInt16.toInt := numberText_inj h
  omega

theorem legible_of_ofOpcode {op : UInt8} {shape : Shape} (h : Shape.ofOpcode op = some shape) :
    Legible pool pc shape := by
  have hslot {a b : UInt8} (h : numberText a.toNat = numberText b.toNat) : a = b :=
    UInt8.toNat_inj.1 (Int.ofNat.inj (numberText_inj h))
  unfold Shape.ofOpcode at h
  cases shape with
  | plain i => trivial
  | byte build =>
    split at h
    all_goals cases h
    · exact fun a b h => congrArg _ (Int8.toInt_inj.1 (numberText_inj h))
    · exact fun a b h => congrArg _ (UInt8.toUInt16_inj.1 (constantText_inj h))
    all_goals exact fun a b h => congrArg _ (hslot h)
  | pair build =>
    split at h
    all_goals cases h
    · exact legible_wide fun m n h => congrArg Instruction.sipush
        (Int16.toInt_inj.1 (numberText_inj h))
    · exact legible_wide fun m n h => congrArg _ (constantText_inj h)
    · intro a b a' b' h
      obtain ⟨hfirst, hsecond⟩ := numberTexts_inj h
      exact congrArg₂ _ (UInt8.toNat_inj.1 (Int.ofNat.inj hfirst)) (Int8.toInt_inj.1 hsecond)
    · exact legible_jump .eqZero
    · exact legible_jump .neZero
    · exact legible_jump .less
    · exact legible_jump .greaterEq
    · exact legible_jump .always
    all_goals exact legible_wide fun m n h => congrArg _ (constantText_inj h)

theorem eq_of_operandText {i j : Instruction} (hop : i.opcode = j.opcode)
    (h : operandText pool pc i = operandText pool pc j) : i = j := by
  obtain ⟨shape, hshape, -⟩ := i.mnemonic_opcode
  have hi := Shape.builds_of_opcode hshape
  have hj := Shape.builds_of_opcode (hop ▸ hshape)
  have hlegible : Legible pool pc shape := legible_of_ofOpcode hshape
  cases shape with
  | plain k => exact hi.trans hj.symm
  | byte build =>
    obtain ⟨a, rfl⟩ := hi
    obtain ⟨a', rfl⟩ := hj
    exact hlegible a a' h
  | pair build =>
    obtain ⟨a, b, rfl⟩ := hi
    obtain ⟨a', b', rfl⟩ := hj
    exact hlegible a b a' b' h

/-- The line of an instruction is that of no other instruction at the same offset. -/
theorem instructionText_inj {i j : Instruction}
    (h : instructionText pool pc i = instructionText pool pc j) : i = j := by
  simp only [instructionText_eq, List.append_assoc] at h
  obtain ⟨hname, hoperands⟩ := Bytes.append_inj_of_spaced (blank_notMem_mnemonic i)
    (blank_notMem_mnemonic j) (operandText_spaced i) (operandText_spaced j)
    (List.append_cancel_left (List.append_cancel_left h))
  exact eq_of_operandText (opcode_eq_of_mnemonic hname) hoperands

end Operands

section Lines

def numbered : Nat → List Instruction → List (Nat × Instruction)
  | _, [] => []
  | pc, i :: is => (pc, i) :: numbered (pc + i.length) is

theorem length_numbered (pc : Nat) (is : List Instruction) :
    (numbered pc is).length = is.length := by
  induction is generalizing pc with
  | nil => rfl
  | cons i is ih => exact congrArg (· + 1) (ih _)

theorem getElem?_numbered (pc k : Nat) (is : List Instruction) : (numbered pc is)[k]? =
    is[k]?.map fun i => (pc + ((is.take k).flatMap Instruction.encode).length, i) := by
  induction is generalizing pc k with
  | nil => rfl
  | cons i is ih =>
    cases k with
    | zero => rfl
    | succ k =>
      rw [numbered, List.getElem?_cons_succ, ih, List.getElem?_cons_succ, List.take_succ_cons,
        List.flatMap_cons, List.length_append, Instruction.length, Nat.add_assoc]

/-- Equal lines are lines of the same instructions: the first lines are at the same offset, and so
are the next ones, since the first instructions are the same. -/
theorem numbered_inj {pc : Nat} {is js : List Instruction}
    (h : ((numbered pc is).map fun p => instructionText pool p.1 p.2) =
      (numbered pc js).map fun p => instructionText pool p.1 p.2) : is = js := by
  induction is generalizing pc js with
  | nil =>
    cases js with
    | nil => rfl
    | cons j js => cases h
  | cons i is ih =>
    cases js with
    | nil => cases h
    | cons j js =>
      obtain ⟨hline, hlines⟩ := List.cons.inj h
      cases instructionText_inj hline
      exact congrArg (i :: ·) (ih hlines)

def Stuck (rest : Bytes) : Prop := ∀ i more, rest ≠ Instruction.encode i ++ more

theorem exists_listingFrom (code : Bytes) (pc : Nat) : ∃ is rest,
    code.drop pc = is.flatMap Instruction.encode ++ rest ∧ Stuck rest ∧
      (listingFrom code pc).1 = numbered pc is ∧
      ((listingFrom code pc).2 = none ↔ rest = []) ∧
      ∀ cause, (listingFrom code pc).2 = some cause →
        decode code (pc + (is.flatMap Instruction.encode).length : Nat) = .error cause := by
  induction pc using listing_induction code with
  | ended pc hge heq =>
    rw [heq]
    refine ⟨[], [], List.drop_eq_nil_of_le hge, fun i more hi => ?_, rfl, iff_of_true rfl rfl, ?_⟩
    · cases hi
    · rintro _ ⟨⟩
  | failed pc cause hlt hd heq =>
    rw [heq]
    refine ⟨[], code.drop pc, rfl, fun i more hi => ?_, rfl, by simp [hlt], ?_⟩
    · rw [decode_natCast, hi, decodeBytes_encode] at hd
      cases hd
    · rintro _ ⟨⟩
      exact hd
  | listed pc i listed cause hd hrest heq ih =>
    rw [hrest] at ih
    rw [heq]
    obtain ⟨is, rest, hdrop, hstuck, hlisted, hend, hcause⟩ := ih
    rw [decode_natCast] at hd
    obtain ⟨more, hmore⟩ := (decodeBytes_ok_iff _ _ _).1 hd
    have hnext : code.drop (pc + i.length) = more := by
      rw [← List.drop_drop, hmore, Instruction.length, List.drop_left]
    refine ⟨i :: is, rest, ?_, hstuck, congrArg ((pc, i) :: ·) hlisted, hend, ?_⟩
    · rw [hmore, ← hnext, hdrop, List.flatMap_cons, List.append_assoc]
    · intro cause hc
      rw [List.flatMap_cons, List.length_append, ← Nat.add_assoc]
      exact hcause cause hc

/-- The bytes of one instruction: an opcode that the machine knows, and all of its operands. -/
def Complete (b : Bytes) : Prop :=
  ∃ op operands shape, b = op :: operands ∧ Shape.ofOpcode op = some shape ∧
    operands.length = shape.width

theorem complete_iff {b : Bytes} : Complete b ↔ ∃ i : Instruction, i.encode = b := by
  constructor
  · rintro ⟨op, operands, shape, rfl, hshape, hwidth⟩
    have hwrites := Shape.writes_of_ofOpcode hshape
    cases shape with
    | plain i =>
      cases List.eq_nil_of_length_eq_zero hwidth
      exact ⟨i, hwrites⟩
    | byte build =>
      obtain ⟨a, rfl⟩ := List.length_eq_one_iff.1 hwidth
      exact ⟨build a, hwrites a⟩
    | pair build =>
      obtain ⟨a, b, rfl⟩ := List.length_eq_two.1 hwidth
      exact ⟨build a b, hwrites a b⟩
  · rintro ⟨i, rfl⟩
    obtain ⟨shape, hshape, -⟩ := i.mnemonic_opcode
    have hwrites := Shape.writes_of_ofOpcode hshape
    have hbuilds := Shape.builds_of_opcode hshape
    suffices hlength : i.encode.length = shape.width + 1 from
      ⟨i.opcode, i.operands, shape, rfl, hshape, Nat.succ.inj hlength⟩
    cases shape with
    | plain j =>
      cases hbuilds
      exact congrArg List.length hwrites
    | byte build =>
      obtain ⟨a, rfl⟩ := hbuilds
      exact congrArg List.length (hwrites a)
    | pair build =>
      obtain ⟨a, b, rfl⟩ := hbuilds
      exact congrArg List.length (hwrites a b)

theorem forall_complete_iff {parts : List Bytes} :
    (∀ b ∈ parts, Complete b) ↔ ∃ is : List Instruction, is.map Instruction.encode = parts := by
  have hrange := Set.ext_iff.1 (Set.range_list_map Instruction.encode) parts
  simp only [complete_iff]
  exact hrange.symm

/-- The start of the code as complete instructions, of which there are no more. -/
structure Longest (code : Bytes) (parts : List Bytes) : Prop where
  complete : ∀ b ∈ parts, Complete b
  start : parts.flatten <+: code
  longest : ∀ others : List Bytes, (∀ b ∈ others, Complete b) → others.flatten <+: code →
    others <+: parts

theorem isPrefix_of_stuck {is js : List Instruction} {rest : Bytes} (hrest : Stuck rest)
    (h : js.flatMap Instruction.encode <+: is.flatMap Instruction.encode ++ rest) : js <+: is := by
  induction js generalizing is with
  | nil => exact List.nil_prefix
  | cons j js ih =>
    obtain ⟨more, hmore⟩ := h
    rw [List.flatMap_cons, List.append_assoc] at hmore
    cases is with
    | nil => exact absurd hmore.symm (hrest j _)
    | cons i is =>
      rw [List.flatMap_cons, List.append_assoc] at hmore
      obtain ⟨rfl, hbehind⟩ := encode_append_inj hmore
      exact List.cons_prefix_cons.2 ⟨rfl, ih ⟨more, hbehind⟩⟩

theorem longest_of_stuck {is : List Instruction} {rest : Bytes} (hrest : Stuck rest) :
    Longest (is.flatMap Instruction.encode ++ rest) (is.map Instruction.encode) where
  complete := forall_complete_iff.2 ⟨is, rfl⟩
  start := by
    rw [← List.flatMap_def]
    exact List.prefix_append _ _
  longest := by
    intro others hothers h
    obtain ⟨js, rfl⟩ := forall_complete_iff.1 hothers
    rw [← List.flatMap_def] at h
    exact (isPrefix_of_stuck hrest h).map _

theorem Longest.eq_flatten {code : Bytes} {parts others : List Bytes} (h : Longest code parts)
    (hothers : ∀ b ∈ others, Complete b) (hcode : code = others.flatten) :
    code = parts.flatten := by
  have hflatten := (h.longest others hothers (hcode ▸ List.prefix_refl code)).flatten
  rw [← hcode] at hflatten
  exact hflatten.eq_of_length (le_antisymm hflatten.length_le h.start.length_le)

/-- One line for each piece: that of its instruction at the offset where the piece starts. -/
def Printed (pool : Pool) (parts lines : List Bytes) : Prop :=
  lines.length = parts.length ∧ ∀ k part, parts[k]? = some part → ∃ i : Instruction,
    i.encode = part ∧ lines[k]? = some (instructionText pool (parts.take k).flatten.length i)

theorem printed_numbered (pool : Pool) (is : List Instruction) :
    Printed pool (is.map Instruction.encode)
      ((numbered 0 is).map fun p => instructionText pool p.1 p.2) := by
  refine ⟨by simp [length_numbered], fun k part hk => ?_⟩
  rw [List.getElem?_map, Option.map_eq_some_iff] at hk
  obtain ⟨i, hi, rfl⟩ := hk
  refine ⟨i, rfl, ?_⟩
  rw [List.getElem?_map, getElem?_numbered, hi, ← List.map_take, ← List.flatMap_def, Nat.zero_add]
  rfl

theorem disassemble_eq_map (pool : Pool) (code : Bytes) : disassemble pool code =
    ((listing code).1.map fun p => instructionText pool p.1 p.2, (listing code).2) := by
  have hlines := List.idRun_mapM (l := (listing code).1)
    (f := fun p => Listing.instructionText pool p.1 p.2)
  rw [disassemble, Listing.disassemble, Id.run_bind, Id.run_bind, Id.run_pure]
  exact Prod.ext hlines rfl

theorem exists_disassemble (pool : Pool) (code : Bytes) : ∃ is rest,
    code = is.flatMap Instruction.encode ++ rest ∧ Stuck rest ∧
      (disassemble pool code).1 = (numbered 0 is).map (fun p => instructionText pool p.1 p.2) ∧
      ((disassemble pool code).2 = none ↔ rest = []) ∧
      ∀ cause, (disassemble pool code).2 = some cause →
        decode code (is.flatMap Instruction.encode).length = .error cause := by
  obtain ⟨is, rest, hcode, hstuck, hlisted, hend, hcause⟩ := exists_listingFrom code 0
  rw [Nat.zero_add] at hcause
  rw [disassemble_eq_map, listing, hlisted]
  exact ⟨is, rest, hcode, hstuck, rfl, hend, hcause⟩

/-- With any pool, two codes that can be listed to their ends and have the same lines are the same.
The lines are those of the longest start that consists of complete instructions. -/
theorem disassemble_loses_nothing (pool : Pool) :
    (∀ code code', (disassemble pool code).2 = none → (disassemble pool code').2 = none →
      (disassemble pool code).1 = (disassemble pool code').1 → code = code') ∧
    ∀ code, ((disassemble pool code).2 = none ↔
        ∃ parts : List Bytes, (∀ b ∈ parts, Complete b) ∧ code = parts.flatten) ∧
      ∃ parts, Longest code parts ∧ Printed pool parts (disassemble pool code).1 ∧
        ((disassemble pool code).2 = none ↔ code = parts.flatten) ∧
        ∀ cause, (disassemble pool code).2 = some cause ↔
          code ≠ parts.flatten ∧ decode code parts.flatten.length = .error cause := by
  constructor
  · intro code code' hnone hnone' hlines
    obtain ⟨is, rest, hcode, -, hprinted, hend, -⟩ := exists_disassemble pool code
    obtain ⟨js, rest', hcode', -, hprinted', hend', -⟩ := exists_disassemble pool code'
    rw [hprinted, hprinted'] at hlines
    rw [hcode, hcode', hend.1 hnone, hend'.1 hnone', numbered_inj hlines]
  · intro code
    obtain ⟨is, rest, hcode, hstuck, hprinted, hend, hcause⟩ := exists_disassemble pool code
    have hlongest : Longest code (is.map Instruction.encode) := by
      rw [hcode]
      exact longest_of_stuck hstuck
    have hparts : (is.map Instruction.encode).flatten = is.flatMap Instruction.encode :=
      List.flatMap_def.symm
    have hwhole : (disassemble pool code).2 = none ↔
        code = (is.map Instruction.encode).flatten := by
      rw [hend, hparts, hcode]
      simp
    refine ⟨⟨?_, ?_⟩, is.map Instruction.encode, hlongest, ?_, hwhole, fun cause => ⟨?_, ?_⟩⟩
    · exact fun hnone => ⟨_, hlongest.complete, hwhole.1 hnone⟩
    · rintro ⟨others, hothers, hothersCode⟩
      exact hwhole.2 (hlongest.eq_flatten hothers hothersCode)
    · rw [hprinted]
      exact printed_numbered pool is
    · intro hsome
      refine ⟨fun hflatten => ?_, hparts ▸ hcause cause hsome⟩
      rw [hwhole.2 hflatten] at hsome
      cases hsome
    · rintro ⟨hne, hdecode⟩
      cases hstop : (disassemble pool code).2 with
      | none => exact absurd (hwhole.1 hstop) hne
      | some cause' =>
        have hdecode' := hcause cause' hstop
        rw [← hparts, hdecode] at hdecode'
        cases hdecode'
        rfl

/-- A number is pushed, a variable counted down, and a jump leads back to the start: no other code
is printed in the same way. -/
theorem loop_lines_unique :
    (disassemble {} [0x10, 0xFB, 0x84, 0x01, 0xFF, 0xA7, 0xFF, 0xFB]).2 = none ∧
    ∀ code, (disassemble {} code).2 = none → (disassemble {} code).1 =
      (disassemble {} [0x10, 0xFB, 0x84, 0x01, 0xFF, 0xA7, 0xFF, 0xFB]).1 →
      code = [0x10, 0xFB, 0x84, 0x01, 0xFF, 0xA7, 0xFF, 0xFB] := by
  obtain ⟨hinjective, hlisting⟩ := disassemble_loses_nothing {}
  have hnone : (disassemble {} [0x10, 0xFB, 0x84, 0x01, 0xFF, 0xA7, 0xFF, 0xFB]).2 = none := by
    refine (hlisting _).1.2 ⟨[[0x10, 0xFB], [0x84, 0x01, 0xFF], [0xA7, 0xFF, 0xFB]], ?_, rfl⟩
    exact forall_complete_iff.2 ⟨[.bipush (-5), .iinc 1 (-1), .branch .always (-5)], rfl⟩
  exact ⟨hnone, fun code hcode hlines => hinjective code _ hcode hnone hlines⟩

end Lines

end Machine

end ClassMachine
