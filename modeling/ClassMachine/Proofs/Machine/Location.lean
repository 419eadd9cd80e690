import ClassMachine.Proofs.Machine.Encoding
import ClassMachine.Proofs.Machine.Faults
import ClassMachine.Proofs.Machine.Pausing

/-! Where faults are located. A fault names the offset at which the run stands when it is stopped
and the byte that is there, and the cause of the fault agrees with it, whether there was no
instruction to decode (`decode_error_agrees`) or it failed (`execute_error_located`). -/
namespace ClassMachine.Machine
variable {program : Program} {code : Bytes} {pc : Int} {i : Instruction}

/-- The byte at an offset of a code; 0 if there is none. -/
def byteAt (code : Bytes) (pc : Int) : UInt8 := if pc < 0 then 0 else code.getD pc.toNat 0

def Cause.pc? : Cause → Option Int
  | .stackUnderflow pc _ _ | .stackOverflow pc _ | .unknownOpcode _ pc | .constantUse _ pc _ _
  | .operandType _ pc _ _ | .localIndex pc _ _ | .ranOff pc | .shortOperands _ pc _ _
  | .branchTarget pc _ _ => some pc
  | .link _ | .library _ => none

/-- The opcode that a cause names; where the code was left it is 0. -/
def Cause.opcode? : Cause → Option UInt8
  | .unknownOpcode op _ | .constantUse op _ _ _ | .operandType op _ _ _
  | .shortOperands op _ _ _ => some op
  | .ranOff _ => some 0
  | _ => none

structure Cause.Agrees (cause : Cause) (pc : Int) (op : UInt8) : Prop where
  pc : ∀ pc' ∈ cause.pc?, pc' = pc
  opcode : ∀ op' ∈ cause.opcode?, op' = op

theorem Cause.LocatedAt.agrees {cause : Cause} {op : UInt8} (h : cause.LocatedAt pc op) :
    cause.Agrees pc op := by
  constructor <;> cases cause <;> simp_all [LocatedAt, Cause.pc?, Cause.opcode?]

theorem byteAt_eq_headD (h : ¬ pc < 0) : byteAt code pc = (code.drop pc.toNat).headD 0 := by
  rw [byteAt, if_neg h, List.headD_eq_head?_getD, List.head?_drop, List.getD_eq_getElem?_getD]

theorem opcode_of_decode (h : decode code pc = .ok i) : i.opcode = byteAt code pc := by
  obtain ⟨before, rest, rfl, rfl⟩ := (decode_ok_iff code pc i).1 h
  rw [byteAt_eq_headD (by omega)]
  simp [Instruction.encode]

theorem decodeBytes_error_agrees {bytes : Bytes} {cause : Cause}
    (h : decodeBytes pc bytes = .error cause) :
    cause.opcode = bytes.headD 0 ∧ cause.Agrees pc (bytes.headD 0) := by
  have agrees (op : UInt8) : (Cause.unknownOpcode op pc).Agrees pc op := by
    constructor <;> simp [Cause.pc?, Cause.opcode?]
  have short (op : UInt8) (need got : Nat) : (Cause.shortOperands op pc need got).Agrees pc op := by
    constructor <;> simp [Cause.pc?, Cause.opcode?]
  cases bytes with
  | nil =>
    cases h
    refine ⟨rfl, ?_⟩
    constructor <;> simp [Cause.pc?, Cause.opcode?]
  | cons op rest =>
    simp only [decodeBytes] at h
    split at h
    all_goals cases h
    · exact ⟨rfl, agrees op⟩
    · exact ⟨rfl, short op 1 0⟩
    · exact ⟨rfl, short op 2 _⟩

theorem decode_error_agrees {cause : Cause} (h : decode code pc = .error cause) :
    cause.opcode = byteAt code pc ∧ cause.Agrees pc (byteAt code pc) := by
  rw [decode] at h
  by_cases hneg : pc < 0
  · rw [if_pos hneg] at h
    cases h
    rw [byteAt, if_pos hneg]
    refine ⟨rfl, ?_⟩
    constructor <;> simp [Cause.pc?, Cause.opcode?]
  · rw [if_neg hneg] at h
    rw [byteAt_eq_headD hneg]
    exact decodeBytes_error_agrees h

/-! Steps and runs. -/

section Runs
variable {a b : Activation} {reason : Stop}

theorem step_code (program : Program) (a : Activation) :
    (a.step program).1.frame.code = a.frame.code ∧
      (a.step program).1.frame.method = a.frame.method := by
  have hstep := a.step_cases program
  generalize a.step program = r at hstep ⊢
  cases hstep with
  | stuck => exact ⟨rfl, rfl⟩
  | next _ _ slots | jump _ _ slots | done _ _ slots | fault _ _ slots =>
    obtain ⟨stack, locals, -, hf⟩ := slots
    simp [hf, Activation.counted]

/-- A step that fails stays where it is, and is counted if there was an instruction. -/
theorem step_fault (h : a.step program = (b, some (.stopped reason))) :
    b.frame.pc = a.frame.pc ∧
      b.frame.executed = a.frame.executed +
        (if (decode a.frame.code a.frame.pc).isOk then 1 else 0) ∧
      ∃ cause, cause.Agrees a.frame.pc (byteAt a.frame.code a.frame.pc) ∧
        reason = .fault a.frame.method a.frame.pc (byteAt a.frame.code a.frame.pc) cause := by
  have hstep := h ▸ a.step_cases program
  cases hstep with
  | stuck decoded =>
    obtain ⟨hopcode, hagrees⟩ := decode_error_agrees decoded
    rw [decoded, hopcode]
    exact ⟨rfl, rfl, _, hagrees, rfl⟩
  | fault decoded executed slots =>
    obtain ⟨stack, locals, -, hf⟩ := slots
    have hlocated := (execute_error_located executed).agrees
    rw [decoded, ← opcode_of_decode decoded, hf]
    exact ⟨rfl, rfl, _, hlocated, rfl⟩

variable {setting : Setting} {s t u : State} {k n : Nat}

theorem run_last {out : Outcome} (h : s.run setting n = (t, some out)) :
    ∃ k u, s.run setting k = (u, none) ∧ u.round setting = (t, some out) := by
  induction n with
  | zero => cases h
  | succ n ih =>
    rw [run_succ] at h
    cases hr : s.run setting n with
    | mk u o =>
      rw [hr] at h
      cases o with
      | none => exact ⟨n, u, hr, h⟩
      | some out' => exact ih (hr.trans h)

/-- As long as a run goes on, it executes one instruction a round. -/
theorem run_executed (h : s.run setting k = (u, none)) : u.executed = s.executed + k := by
  induction k generalizing u with
  | zero =>
    cases h
    rfl
  | succ k ih =>
    rw [run_succ] at h
    cases hr : s.run setting k with
    | mk v o =>
      rw [hr] at h
      cases o with
      | some out => cases h
      | none =>
        dsimp only at h
        have hv := ih hr
        rcases round_cases setting v with ⟨-, hround⟩ | ⟨-, -, -, hround⟩ | ⟨-, -, hround⟩
        · rw [hround] at h
          cases h
        · rw [hround] at h
          cases h
        · rw [hround] at h
          have hstep := advance_executed setting (v.look setting) (by rw [h])
          rw [h] at hstep
          rw [hstep, ← Nat.add_assoc, ← hv]
          rfl

theorem run_code (h : s.run setting k = (u, none)) :
    u.frame.code = s.frame.code ∧ u.frame.method = s.frame.method := by
  let P : Activation → Prop := fun a =>
    a.frame.code = s.frame.code ∧ a.frame.method = s.frame.method
  have hstep (a b : Activation) (ha : P a) (hab : a.step setting.program = (b, none)) : P b := by
    have hkept := step_code setting.program a
    rw [hab] at hkept
    exact ⟨hkept.1.trans ha.1, hkept.2.trans ha.2⟩
  have hstart : P s.activation := ⟨rfl, rfl⟩
  obtain ⟨hu, -⟩ | ⟨a, out, -, hnone, -⟩ := run_invariant setting hstep hstart h
  · exact hu
  · cases hnone

end Runs

/-- A fault that stops a run is reported at the offset where the run stands, with the byte of the
code there, as its cause names them; one instruction was executed in each round before. -/
theorem faults_located (setting : Setting) (s t : State) (n : Nat) (reason : Stop)
    (hrun : s.run setting n = (t, some (.stopped reason)))
    (hbudget : ∀ limit pc, reason ≠ .budget limit pc) (hcancel : reason ≠ .cancelled) :
    let op := byteAt s.frame.code t.frame.pc
    let last := if (decode s.frame.code t.frame.pc).isOk then 1 else 0
    (∃ cause, reason = .fault s.frame.method t.frame.pc op cause ∧
      (∀ pc ∈ cause.pc?, pc = t.frame.pc) ∧ ∀ op' ∈ cause.opcode?, op' = op) ∧
    ∃ k u, s.run setting k = (u, none) ∧ u.round setting = (t, some (.stopped reason)) ∧
      u.frame.pc = t.frame.pc ∧ t.executed = s.executed + k + last ∧
      t.frame.executed = s.frame.executed + k + last := by
  intro op last
  obtain ⟨k, u, hk, hlast⟩ := run_last hrun
  have hcode := run_code hk
  have hexecuted := run_executed hk
  have hbefore := run_counters setting k s
  have hafter := run_counters setting n s
  rw [hk] at hbefore
  rw [hrun] at hafter
  dsimp only at hbefore hafter
  rcases round_cases setting u with ⟨-, hround⟩ | ⟨-, -, -, hround⟩ | ⟨-, -, hround⟩
  · cases hround.symm.trans hlast
    exact absurd rfl (hbudget _ _)
  · cases hround.symm.trans hlast
    exact absurd rfl hcancel
  · have hstep := advance_step setting (u.look setting)
    rw [← hround, hlast] at hstep
    obtain ⟨hpc, hcount, cause, hagrees, hreason⟩ := step_fault hstep
    change t.frame.pc = u.frame.pc at hpc
    change t.frame.executed = u.frame.executed +
      (if (decode u.frame.code u.frame.pc).isOk then 1 else 0) at hcount
    change cause.Agrees u.frame.pc (byteAt u.frame.code u.frame.pc) at hagrees
    change reason =
      .fault u.frame.method u.frame.pc (byteAt u.frame.code u.frame.pc) cause at hreason
    rw [hcode.1, ← hpc] at hcount hagrees hreason
    rw [hcode.2] at hreason
    refine ⟨⟨cause, hreason, hagrees.pc, hagrees.opcode⟩, k, u, hk, hlast, hpc.symm, ?_, ?_⟩
    · omega
    · omega

def cutShort : State where
  frame := { method := utf8 "main", code := [0x00, 0x11, 0x01], maxStack := 1 }
  store := {}

/-- The fault of `cutShort` is located at the second instruction, which is not counted. -/
theorem cutShort_located :
    let (t, outcome) := cutShort.run {} 4
    outcome = some (.stopped (.fault (utf8 "main") 1 0x11 (.shortOperands 0x11 1 2 1))) ∧
      t.frame.pc = 1 ∧ byteAt cutShort.frame.code t.frame.pc = 0x11 ∧ t.executed = 1 ∧
      ∃ k u, cutShort.run {} k = (u, none) ∧ u.frame.pc = t.frame.pc ∧
        t.executed = cutShort.executed + k := by
  obtain ⟨-, k, u, hu, -, hpc, hexecuted, -⟩ :=
    faults_located {} cutShort _ 4 _ rfl (by simp) (by simp)
  exact ⟨rfl, rfl, rfl, rfl, k, u, hu, hpc, hexecuted⟩

end ClassMachine.Machine
