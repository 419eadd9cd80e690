import ClassMachine.Proofs.Machine.Encoding
import ClassMachine.Proofs.Machine.Pausing
import ClassMachine.Proofs.Machine.Phases

/-! Moving code. Branches are relative to the place of the instruction, and an instruction is
decoded from its own bytes, so it does not matter what stands before and after a code as long as the
code is not left. A step of a code that is put between others is the step of the code by itself
(`step_relocate`), and so is a number of steps (`steps_relocate`). -/
namespace ClassMachine

/-- The frame in a code that starts with `k` instructions that do nothing, which it has executed,
and that does not end with its own. -/
def Frame.relocate (k : Nat) (after : Bytes) (f : Frame) : Frame :=
  { f with
    code := List.replicate k 0x00 ++ f.code ++ after,
    pc := f.pc + k,
    executed := f.executed + k }

namespace Machine
open Fallible Effect
variable {α β : Type} {program : Program} {k : Nat} {after : Bytes}

def Activation.relocate (k : Nat) (after : Bytes) (a : Activation) : Activation :=
  { a with frame := a.frame.relocate k after }

def Cause.shift (k : Nat) : Cause → Cause
  | .stackUnderflow pc need depth => .stackUnderflow (pc + k) need depth
  | .stackOverflow pc maxStack => .stackOverflow (pc + k) maxStack
  | .unknownOpcode op pc => .unknownOpcode op (pc + k)
  | .constantUse op pc index kind => .constantUse op (pc + k) index kind
  | .operandType op pc got want => .operandType op (pc + k) got want
  | .localIndex pc index maxLocals => .localIndex (pc + k) index maxLocals
  | .ranOff pc => .ranOff (pc + k)
  | .shortOperands op pc need got => .shortOperands op (pc + k) need got
  | .branchTarget pc target codeLength => .branchTarget (pc + k) (target + k) codeLength
  | .link e => .link e
  | .library e => .library e

theorem Cause.opcode_shift (cause : Cause) : (cause.shift k).opcode = cause.opcode := by
  cases cause <;> rfl

def Cause.LeavesCode : Cause → Prop
  | .ranOff _ | .shortOperands _ _ _ _ | .branchTarget _ _ _ => True
  | _ => False

def Control.shift (k : Nat) : Control → Control
  | .jump target => .jump (target + k)
  | control => control

/-- The reason as it is reported `k` bytes further on, with a budget for `k` instructions more. -/
def Stop.shift (k : Nat) : Stop → Stop
  | .fault method pc op cause => .fault method (pc + k) op (cause.shift k)
  | .budget limit pc => .budget (limit + k) (pc + k)
  | .cancelled => .cancelled

namespace Outcome

def shift (k : Nat) : Outcome → Outcome
  | .returned v => .returned v
  | .stopped reason => .stopped (reason.shift k)

def LeavesCode : Outcome → Prop
  | .stopped (.fault _ _ _ cause) => cause.LeavesCode
  | _ => False

end Outcome

def Ending.relocate (k : Nat) (after : Bytes) (e : Ending) : Ending where
  activation := e.activation.relocate k after
  outcome := e.outcome.map (Outcome.shift k)
  executed := e.executed + k

/-! Instructions. -/

/-- Elsewhere in another code the effect is the same, and `move` says what becomes of its result. -/
def Moves (k : Nat) (after : Bytes) (move : α → α) (e : Effect α) : Prop :=
  ∀ a, match e a with
    | .ok x b => e (a.relocate k after) = .ok (move x) (b.relocate k after)
    | .error cause b => cause.LeavesCode ∨
        e (a.relocate k after) = .error (cause.shift k) (b.relocate k after)

section Parts

theorem moves_bind {e : Effect α} {f : α → Effect β} {move : β → β} (he : Moves k after id e)
    (hf : ∀ x, Moves k after move (f x)) : Moves k after move (e >>= f) := by
  intro a
  have hmoved := he a
  cases hx : e a with
  | ok x b =>
    rw [hx] at hmoved
    rw [bind_of_ok hx, bind_of_ok hmoved]
    exact hf x b
  | error cause b =>
    rw [hx] at hmoved
    rw [bind_of_error hx]
    exact hmoved.imp_right fun h => bind_of_error h f

theorem moves_ofFrame {read : Frame → Except Cause α}
    (h : ∀ f, read (f.relocate k after) = (read f).mapError (Cause.shift k)) :
    Moves k after id (ofFrame read) := by
  intro a
  simp only [ofFrame, Activation.relocate, h]
  cases read a.frame with
  | ok x => rfl
  | error cause => exact Or.inr rfl

theorem moves_onFrame {change : Frame → Except Cause Frame}
    (h : ∀ f, change (f.relocate k after) =
      ((change f).map (Frame.relocate k after)).mapError (Cause.shift k)) :
    Moves k after id (onFrame change) := by
  intro a
  simp only [onFrame, Activation.relocate, h]
  cases change a.frame with
  | ok f => rfl
  | error cause => exact Or.inr rfl

theorem moves_takeFrame {take : Frame → Except Cause (α × Frame)}
    (h : ∀ f, take (f.relocate k after) =
      ((take f).map (Prod.map id (Frame.relocate k after))).mapError (Cause.shift k)) :
    Moves k after id (takeFrame take) := by
  intro a
  simp only [takeFrame, Activation.relocate, h]
  cases take a.frame with
  | ok p => rfl
  | error cause => exact Or.inr rfl

theorem moves_demand (n : Nat) : Moves k after id (demand n) := by
  refine moves_ofFrame fun f => ?_
  simp only [Frame.depth, Frame.relocate]
  by_cases h : f.stack.length < n
  · simp only [h, if_true]
    rfl
  · simp only [h, if_false]
    rfl

theorem moves_pop : Moves k after id pop := by
  refine moves_takeFrame fun f => ?_
  simp only [Frame.pop, Frame.relocate]
  cases f.stack <;> rfl

theorem moves_popN (n : Nat) : Moves k after id (popN n) := by
  refine moves_takeFrame fun f => ?_
  simp only [Frame.popN, Frame.relocate, Frame.depth]
  by_cases h : f.stack.length < n
  · simp only [h, if_true]
    rfl
  · simp only [h, if_false]
    rfl

theorem moves_peek : Moves k after id peek := by
  refine moves_ofFrame fun f => ?_
  simp only [Frame.peek, Frame.relocate]
  cases f.stack <;> rfl

theorem moves_getLocal (slot : Nat) : Moves k after id (getLocal slot) := by
  refine moves_ofFrame fun f => ?_
  change Frame.getLocal _ (Int.ofNat slot) = (f.getLocal (Int.ofNat slot)).mapError _
  simp only [Frame.getLocal, Frame.relocate]
  cases f.locals[slot]? <;> rfl

theorem moves_setLocal (slot : Nat) (v : Value) : Moves k after id (setLocal slot v) := by
  refine moves_onFrame fun f => ?_
  change Frame.setLocal _ (Int.ofNat slot) v = ((f.setLocal (Int.ofNat slot) v).map _).mapError _
  simp only [Frame.setLocal, Frame.relocate]
  by_cases h : slot < f.locals.length
  · simp only [h, if_true]
    rfl
  · simp only [h, if_false]
    rfl

theorem moves_push (v : Value) : Moves k after id (push v) := by
  refine moves_onFrame fun f => ?_
  simp only [Frame.push, Frame.relocate, Frame.depth]
  by_cases h : f.maxStack ≤ f.stack.length
  · simp only [h, if_true]
    rfl
  · simp only [h, if_false]
    rfl

theorem moves_ofStore (read : Store → Except Library.Error α) :
    Moves k after id (ofStore read) := by
  intro a
  simp only [ofStore, Activation.relocate]
  cases read a.store with
  | ok x => rfl
  | error e => exact Or.inr rfl

theorem moves_call (m : Method) (args : List Value) : Moves k after id (call m args) := by
  intro a
  simp only [call, Activation.relocate]
  cases m.invoke args a.store with
  | ok v s => rfl
  | error e s => exact Or.inr rfl

theorem moves_link (x : Except ClassFile.Error α) : Moves k after id (link x) := by
  intro a
  cases x with
  | ok x => rfl
  | error e => exact Or.inr rfl

theorem moves_branchTo (offset : Int16) :
    Moves k after (Control.shift k) (branchTo offset) := by
  intro a
  rw [branchTo, bind_of_ok (ofFrame_frame a), bind_of_ok (ofFrame_frame (a.relocate k after))]
  by_cases h : 0 ≤ a.frame.pc + offset.toInt ∧ a.frame.pc + offset.toInt < a.frame.code.length
  · have hlen : (a.relocate k after).frame.code.length =
        k + (a.frame.code.length + after.length) := by
      simp [Activation.relocate, Frame.relocate]
    have hpc : (a.relocate k after).frame.pc = a.frame.pc + k := rfl
    have hin : 0 ≤ (a.relocate k after).frame.pc + offset.toInt ∧
        (a.relocate k after).frame.pc + offset.toInt <
          (a.relocate k after).frame.code.length := by omega
    have htarget : (a.relocate k after).frame.pc + offset.toInt =
        a.frame.pc + offset.toInt + k := by omega
    rw [if_pos h, if_pos hin, htarget]
    rfl
  · rw [if_neg h]
    exact Or.inl trivial

theorem moves_makeObject (c : ClassId) : Moves k after id (makeObject c) :=
  moves_bind (fun _ => rfl) fun v => moves_push v

theorem moves_applyMethod (mode : Mode) (m : Method) : Moves k after id (applyMethod mode m) :=
  applyMethod_of_parts (P := fun _ => Moves k after id) moves_bind (fun _ => rfl) moves_push
    mode m (moves_popN m.arity) (moves_call m)

end Parts

theorem moves_phases (program : Program) (op : UInt8) :
    Phases program op (fun _ => Moves k after id) (Moves k after (Control.shift k)) where
  pure _ _ := rfl
  bind := moves_bind
  demand := moves_demand
  pop := moves_pop
  peek := moves_peek
  getLocal := moves_getLocal
  operandType _ _ _ := Or.inr rfl
  refuseConstant _ _ _ := Or.inr rfl
  link := moves_link
  lookup _ := moves_ofStore _
  staticField _ _ := moves_ofStore _
  findMethod := Phases.findMethod_of_ofStore moves_ofStore moves_bind
  after := moves_bind
  next _ := rfl
  done _ _ := rfl
  branchTo := moves_branchTo
  push v := moves_bind (moves_push v) fun _ _ => rfl
  setLocal slot v := moves_bind (moves_setLocal slot v) fun _ _ => rfl
  makeObject c := moves_bind (moves_makeObject c) fun _ _ => rfl
  applyMethod mode m _ := moves_bind (moves_applyMethod mode m) fun _ _ => rfl

theorem execute_moves (k : Nat) (after : Bytes) (program : Program) (i : Instruction) :
    Moves k after (Control.shift k) (execute program i) := execute_phases i (moves_phases program _)

/-! Decoding. -/

theorem decode_relocate {code : Bytes} {pc : Int} {i : Instruction} (h : decode code pc = .ok i) :
    decode (List.replicate k 0x00 ++ code ++ after) (pc + k) = .ok i := by
  obtain ⟨before, rest, rfl, rfl⟩ := (decode_ok_iff code pc i).1 h
  refine (decode_ok_iff _ _ i).2 ⟨List.replicate k 0x00 ++ before, rest ++ after, by simp, ?_⟩
  simp only [List.length_append, List.length_replicate]
  omega

theorem decodeBytes_error_append (k : Nat) (after : Bytes) {bytes : Bytes} {pc : Int}
    {cause : Cause} (h : decodeBytes pc bytes = .error cause) : cause.LeavesCode ∨
      bytes ≠ [] ∧ decodeBytes (pc + k) (bytes ++ after) = .error (cause.shift k) := by
  cases bytes with
  | nil =>
    cases h
    exact Or.inl trivial
  | cons op rest =>
    simp only [decodeBytes] at h
    split at h
    all_goals cases h
    · rename_i hnone
      refine Or.inr ⟨List.cons_ne_nil op _, ?_⟩
      simp only [List.cons_append, decodeBytes, hnone]
      rfl
    · exact Or.inl trivial
    · exact Or.inl trivial

theorem decode_error_relocate {code : Bytes} {pc : Int} {cause : Cause}
    (h : decode code pc = .error cause) : cause.LeavesCode ∨
      decode (List.replicate k 0x00 ++ code ++ after) (pc + k) = .error (cause.shift k) := by
  rw [decode] at h
  by_cases hneg : pc < 0
  · rw [if_pos hneg] at h
    cases h
    exact Or.inl trivial
  · rw [if_neg hneg] at h
    rcases decodeBytes_error_append k after h with hleft | ⟨hne, herror⟩
    · exact Or.inl hleft
    refine Or.inr ?_
    have hlt : pc.toNat < code.length := by
      by_contra hle
      exact hne (List.drop_eq_nil_of_le (by omega))
    have hdrop : (List.replicate k 0x00 ++ code ++ after).drop (pc + k).toNat =
        code.drop pc.toNat ++ after := by
      have hat : (pc + k).toNat = (List.replicate k (0x00 : UInt8)).length + pc.toNat := by
        rw [List.length_replicate]
        omega
      rw [hat, List.append_assoc, List.drop_length_add_append, List.drop_append_of_le_length hlt.le]
    rw [decode, if_neg (by omega), hdrop]
    exact herror

/-! Steps and runs. -/

section Runs
variable {a b : Activation} {o : Option Outcome}

/-- A step that does not leave the code is the same step elsewhere in another code. -/
theorem step_relocate (h : a.step program = (b, o)) (hstay : ∀ out ∈ o, ¬ out.LeavesCode) :
    (a.relocate k after).step program = (b.relocate k after, o.map (Outcome.shift k)) := by
  have hcounted : a.counted.relocate k after = (a.relocate k after).counted := by
    simp only [Activation.counted, Activation.relocate, Frame.relocate, Nat.add_right_comm]
  have hdecoded {i : Instruction} (hd : decode a.frame.code a.frame.pc = .ok i) :
      decode (a.relocate k after).frame.code (a.relocate k after).frame.pc = .ok i :=
    decode_relocate hd
  have hmoves (i : Instruction) := execute_moves k after program i a.counted
  have hstep := h ▸ a.step_cases program
  cases hstep with
  | @stuck cause decoded =>
    have hmoved : decode (a.relocate k after).frame.code (a.relocate k after).frame.pc =
        .error (cause.shift k) := (decode_error_relocate decoded).resolve_left (hstay _ rfl)
    rw [(Activation.StepsTo.stuck hmoved).eq, Cause.opcode_shift]
    rfl
  | @next i _ decoded executed =>
    have hmoved := hmoves i
    rw [executed, hcounted] at hmoved
    rw [(Activation.StepsTo.next (hdecoded decoded) hmoved (execute_ok_slotsOnly hmoved)).eq]
    simp [Activation.relocate, Frame.relocate, Int.add_right_comm]
  | @jump i _ _ decoded executed =>
    have hmoved := hmoves i
    rw [executed, hcounted] at hmoved
    exact (Activation.StepsTo.jump (hdecoded decoded) hmoved (execute_ok_slotsOnly hmoved)).eq
  | @done i _ _ decoded executed =>
    have hmoved := hmoves i
    rw [executed, hcounted] at hmoved
    exact (Activation.StepsTo.done (hdecoded decoded) hmoved (execute_ok_slotsOnly hmoved)).eq
  | @fault i _ _ decoded executed =>
    have hmoved := hmoves i
    rw [executed, hcounted] at hmoved
    have hmoved := hmoved.resolve_left (hstay _ rfl)
    exact (Activation.StepsTo.fault (hdecoded decoded) hmoved (execute_error_slotsOnly hmoved)).eq

theorem steps_relocate {n : Nat} (h : a.steps program n = (b, o))
    (hstay : ∀ out ∈ o, ¬ out.LeavesCode) :
    (a.relocate k after).steps program n = (b.relocate k after, o.map (Outcome.shift k)) := by
  induction n generalizing a with
  | zero =>
    cases h
    rfl
  | succ n ih =>
    rw [Activation.steps] at h ⊢
    cases hstep : a.step program with
    | mk c o' =>
      rw [hstep] at h
      cases o' with
      | none =>
        rw [step_relocate hstep (by simp)]
        exact ih h
      | some out =>
        cases h
        rw [step_relocate hstep hstay]
        rfl

theorem steps_nops (n : Nat) (before : Bytes) {rest : Bytes}
    (hcode : a.frame.code = before ++ (List.replicate n 0x00 ++ rest))
    (hpc : a.frame.pc = before.length) :
    a.steps program n =
      ({ a with frame := { a.frame with pc := a.frame.pc + n, executed := a.frame.executed + n } },
        none) := by
  induction n generalizing a before with
  | zero => simp [Activation.steps]
  | succ n ih =>
    have hd : decode a.frame.code a.frame.pc = .ok .nop :=
      (decode_ok_iff _ _ _).2 ⟨before, List.replicate n 0x00 ++ rest, by rw [hcode]; rfl, hpc⟩
    let b : Activation := { a with frame := { a.frame with
      pc := a.frame.pc + 1, executed := a.frame.executed + 1 } }
    have hstep : a.step program = (b, none) := by
      simp only [Activation.step, hd]
      rfl
    have hcode' : b.frame.code = (before ++ [0x00]) ++ (List.replicate n 0x00 ++ rest) := by
      change a.frame.code = _
      rw [hcode, List.replicate_succ]
      simp
    have hpc' : b.frame.pc = (before ++ [0x00]).length := by
      change a.frame.pc + 1 = _
      rw [hpc]
      simp
    have hend : a.frame.pc + 1 + n = a.frame.pc + (n + 1 : Nat) := by omega
    have hcount : a.frame.executed + 1 + n = a.frame.executed + (n + 1) := by omega
    rw [Activation.steps, hstep]
    dsimp only
    rw [ih _ hcode' hpc']
    simp only [b, hend, hcount]

end Runs

def Activation.embed (k : Nat) (after : Bytes) (a : Activation) : Activation :=
  { a with frame := { a.frame with code := List.replicate k 0x00 ++ a.frame.code ++ after } }

theorem steps_embed {a b : Activation} {o : Option Outcome} {n : Nat} (hpc : a.frame.pc = 0)
    (h : a.steps program n = (b, o)) (hstay : ∀ out ∈ o, ¬ out.LeavesCode) :
    (a.embed k after).steps program (k + n) =
      (b.relocate k after, o.map (Outcome.shift k)) := by
  have hnops : (a.embed k after).steps program k = (a.relocate k after, none) :=
    steps_nops k [] (List.append_assoc _ _ _) hpc
  rw [steps_add, hnops]
  exact steps_relocate h hstay

/-- A run that does not leave its code is the same in a code with `k` instructions that do nothing
before it and anything after it, with the offsets, the limit and the count larger by `k`. -/
theorem code_is_relocatable (setting : Setting) (a : Activation) (hpc : a.frame.pc = 0)
    (k : Nat) (after : Bytes) (budget : Nat) (hbudget : 0 < budget) :
    ∃ out, (a.exec setting budget).outcome = some out ∧
      (¬ out.LeavesCode →
        (a.embed k after).exec setting (budget + k) =
          (a.exec setting budget).relocate k after) := by
  cases h : a.steps setting.program budget with
  | mk b o =>
    obtain ⟨hb, hout⟩ := exec_of_steps setting hbudget h
    refine ⟨_, hout, fun hstay => ?_⟩
    have hmoved : (a.embed k after).steps setting.program (budget + k) =
        (b.relocate k after, o.map (Outcome.shift k)) := by
      rw [Nat.add_comm]
      refine steps_embed hpc h fun out hmem => ?_
      rw [Option.mem_def] at hmem
      rwa [hmem] at hstay
    obtain ⟨hb', hout'⟩ := exec_of_steps setting (Nat.add_pos_left hbudget k) hmoved
    have hcount := exec_executed setting budget a
    have hcount' := exec_executed setting (budget + k) (a.embed k after)
    refine Ending.ext ?_ ?_ ?_
    · rw [hb', Ending.relocate, hb]
    · rw [hout', Ending.relocate, hout]
      cases o with
      | none => simp [Outcome.shift, Stop.shift, Activation.relocate, Frame.relocate]
      | some out => rfl
    · rw [hb] at hcount
      rw [hb'] at hcount'
      change _ + a.frame.executed = b.frame.executed + k at hcount'
      change _ = (a.exec setting budget).executed + k
      omega

/-- Two instructions before `counting` and a stray byte after it: the budget of six more
instructions is used up two bytes further on. -/
theorem counting_relocated :
    (Activation.exec {} 6 ⟨counting, {}⟩).outcome = some (.stopped (.budget 6 0)) ∧
    (Activation.embed 2 [0xFF] ⟨counting, {}⟩).exec {} 8 =
      (Activation.exec {} 6 ⟨counting, {}⟩).relocate 2 [0xFF] ∧
    ((Activation.embed 2 [0xFF] ⟨counting, {}⟩).exec {} 8).outcome =
      some (.stopped (.budget 8 2)) := by
  obtain ⟨out, hout, hmoved⟩ :=
    code_is_relocatable {} ⟨counting, {}⟩ rfl 2 [0xFF] 6 (by decide)
  have hbudget : (Activation.exec {} 6 ⟨counting, {}⟩).outcome =
      some (.stopped (.budget 6 0)) := rfl
  cases hout.symm.trans hbudget
  exact ⟨hbudget, hmoved id, rfl⟩

end Machine

end ClassMachine
