import ClassMachine.Proofs.Programs.Stepping

/-! Integer expressions. The code of an expression computes its operands one after the other and
then combines them, so that it pushes the value of the expression on whatever is on the stack
(`steps_value`). On the way the stack grows by the depth of the expression, and if there is no room
for that, the code does not come to its end (`steps_overflow`). -/
namespace ClassMachine.Machine
open Fallible Effect
variable {program : Program}

inductive Operand
  | const (n : Int16)
  | slot (index : UInt8)

namespace Operand

def instruction : Operand → Instruction
  | const n => .sipush n
  | slot index => .load .int index

def value (env : UInt8 → Int32) : Operand → Int
  | const n => n.toInt
  | slot index => (env index).toInt

end Operand

inductive BinaryOp
  | add
  | sub

namespace BinaryOp

def instruction : BinaryOp → Instruction
  | add => .iadd
  | sub => .isub

def apply : BinaryOp → Int → Int → Int
  | add, a, b => a + b
  | sub, a, b => a - b

end BinaryOp

inductive Expr
  | operand (x : Operand)
  | binary (op : BinaryOp) (l r : Expr)

namespace Expr

def instructions : Expr → List Instruction
  | operand x => [x.instruction]
  | binary op l r => l.instructions ++ r.instructions ++ [op.instruction]

def bytes (e : Expr) : Bytes := e.instructions.flatMap Instruction.encode

/-- The value over the integers, where `env` holds the values of the local variables. -/
def value (env : UInt8 → Int32) : Expr → Int
  | operand x => x.value env
  | binary op l r => op.apply (l.value env) (r.value env)

def size : Expr → Nat
  | operand _ => 1
  | binary _ l r => l.size + r.size + 1

/-- By how much the stack grows at most. The left operand lies there while the right one is
computed. -/
def depth : Expr → Nat
  | operand _ => 1
  | binary _ l r => max l.depth (1 + r.depth)

def slots : Expr → List UInt8
  | operand (.slot index) => [index]
  | operand (.const _) => []
  | binary _ l r => l.slots ++ r.slots

def Holds (env : UInt8 → Int32) (locals : List Value) (e : Expr) : Prop :=
  ∀ index ∈ e.slots, locals[index.toNat]? = some (.int (env index))

theorem bytes_operand (x : Operand) : (operand x).bytes = x.instruction.encode := by
  simp [bytes, instructions]

theorem bytes_binary (op : BinaryOp) (l r : Expr) :
    (binary op l r).bytes = l.bytes ++ (r.bytes ++ op.instruction.encode) := by
  simp [bytes, instructions]

theorem holds_binary {env : UInt8 → Int32} {locals : List Value} {op : BinaryOp} {l r : Expr}
    (h : (binary op l r).Holds env locals) : l.Holds env locals ∧ r.Holds env locals :=
  List.forall_mem_append.1 h

end Expr

section Steps
variable {f : Frame} {n pc : Nat} {locals stack : List Value} {store : Store}
  {env : UInt8 → Int32}

theorem execute_operand {a : Activation} (x : Operand)
    (h : (Expr.operand x).Holds env a.frame.locals) :
    execute program x.instruction a =
      (do push (.int (Int32.ofInt (x.value env))); pure .next : Effect Control) a := by
  cases x with
  | const k =>
    rw [Operand.instruction, Operand.value, Int32.ofInt_int16ToInt]
    rfl
  | slot index =>
    have hv := h index List.mem_cons_self
    simp only [Operand.instruction, Operand.value, Int32.ofInt_toInt]
    exact bind_of_eq (loadSlot_of_ok (getLocal_of_some hv) rfl) _

theorem step_operand (x : Operand) (hd : decode f.code pc = .ok x.instruction)
    (hslots : (Expr.operand x).Holds env locals) :
    (spot f pc n locals stack store).step program =
      if stack.length < f.maxStack then
        (spot f (pc + x.instruction.length) (n + 1) locals
          (.int (Int32.ofInt (x.value env)) :: stack) store, none)
      else
        (spot f pc (n + 1) locals stack store, some (.stopped
          (.fault f.method pc x.instruction.opcode (.stackOverflow pc f.maxStack)))) := by
  let a := spot f pc (n + 1) locals stack store
  have hx : execute program x.instruction a = _ := execute_operand x hslots
  by_cases hroom : stack.length < f.maxStack
  · rw [if_pos hroom]
    exact step_next hd (hx.trans (bind_of_ok (push_of_room hroom _) _))
  · have hfull := push_of_full (a := a) (Nat.not_lt.1 hroom) (.int (Int32.ofInt (x.value env)))
    rw [if_neg hroom, step_spot hd, hx, bind_of_error hfull]
    rfl

theorem step_binary (op : BinaryOp) (j k : Int) (hd : decode f.code pc = .ok op.instruction)
    (hroom : stack.length < f.maxStack) :
    (spot f pc n locals (.int (Int32.ofInt k) :: .int (Int32.ofInt j) :: stack) store).step
        program =
      (spot f (pc + op.instruction.length) (n + 1) locals
        (.int (Int32.ofInt (op.apply j k)) :: stack) store, none) := by
  have hpush (v : Value) := push_of_room (a := spot f pc (n + 1) locals stack store) hroom v
  refine step_next hd ?_
  cases op with
  | add =>
    rw [BinaryOp.instruction, BinaryOp.apply, Int32.ofInt_add]
    exact (bind_of_ok (popInts_of_cons _) _).trans (bind_of_ok (hpush _) _)
  | sub =>
    rw [BinaryOp.instruction, BinaryOp.apply, Int32.ofInt_sub]
    exact (bind_of_ok (popInts_of_cons _) _).trans (bind_of_ok (hpush _) _)

end Steps

section Expressions
variable {f : Frame} {n : Nat} {locals stack : List Value} {store : Store} {env : UInt8 → Int32}
  {e : Expr} {code before after : Bytes}

theorem decode_operand {x : Operand} (h : code = before ++ ((Expr.operand x).bytes ++ after)) :
    decode code before.length = .ok x.instruction := by
  rw [Expr.bytes_operand] at h
  exact (decode_ok_iff _ _ _).2 ⟨before, after, h, rfl⟩

theorem binary_placed {op : BinaryOp} {l r : Expr}
    (h : code = before ++ ((Expr.binary op l r).bytes ++ after)) :
    (∃ rest, code = before ++ (l.bytes ++ rest)) ∧
      (∃ rest, code = (before ++ l.bytes) ++ (r.bytes ++ rest)) ∧
      decode code (before ++ l.bytes ++ r.bytes).length = .ok op.instruction := by
  subst h
  rw [Expr.bytes_binary]
  refine ⟨⟨r.bytes ++ (op.instruction.encode ++ after), by simp⟩,
    ⟨op.instruction.encode ++ after, by simp⟩, (decode_ok_iff _ _ _).2 ?_⟩
  exact ⟨before ++ l.bytes ++ r.bytes, after, by simp, rfl⟩

/-- The code of an expression pushes its value, if there is room for its depth. -/
theorem steps_value (hcode : f.code = before ++ (e.bytes ++ after))
    (hslots : e.Holds env locals) (hroom : stack.length + e.depth ≤ f.maxStack) :
    (spot f before.length n locals stack store).steps program e.size =
      (spot f (before ++ e.bytes).length (n + e.size) locals
        (.int (Int32.ofInt (e.value env)) :: stack) store, none) := by
  induction e generalizing before after n stack with
  | operand x =>
    have hlt : stack.length < f.maxStack := hroom
    rw [Expr.size, steps_succ rfl, step_operand x (decode_operand hcode) hslots, if_pos hlt,
      Expr.bytes_operand, List.length_append]
    rfl
  | binary op l r ihl ihr =>
    obtain ⟨hl, hr⟩ := Expr.holds_binary hslots
    obtain ⟨⟨_, hleft⟩, ⟨_, hright⟩, hd⟩ := binary_placed hcode
    rw [Expr.depth] at hroom
    have hroomLeft : stack.length + l.depth ≤ f.maxStack := by omega
    have hroomRight : (Value.int (Int32.ofInt (l.value env)) :: stack).length + r.depth ≤
        f.maxStack := by
      rw [List.length_cons]
      omega
    have hlt : stack.length < f.maxStack := by omega
    rw [Expr.size, Nat.add_assoc, steps_add, ihl hleft hl hroomLeft]
    dsimp only
    rw [steps_succ (ihr hright hr hroomRight), step_binary op _ _ hd hlt]
    simp only [Expr.value, Expr.bytes_binary, Instruction.length, List.length_append, Nat.add_assoc]

/-- The code of an expression overflows the stack, if there is no room for its depth. -/
theorem steps_overflow (hcode : f.code = before ++ (e.bytes ++ after))
    (hslots : e.Holds env locals) (hover : f.maxStack < stack.length + e.depth) :
    ∃ b pc op, (spot f before.length n locals stack store).steps program e.size =
      (b, some (.stopped (.fault f.method pc op (.stackOverflow pc f.maxStack)))) := by
  induction e generalizing before after n stack with
  | operand x =>
    have hge : ¬ stack.length < f.maxStack := Nat.not_lt.2 (Nat.le_of_lt_succ hover)
    rw [Expr.size, steps_succ rfl, step_operand x (decode_operand hcode) hslots, if_neg hge]
    exact ⟨_, _, _, rfl⟩
  | binary op l r ihl ihr =>
    obtain ⟨hl, hr⟩ := Expr.holds_binary hslots
    obtain ⟨⟨_, hleft⟩, ⟨_, hright⟩, -⟩ := binary_placed hcode
    rw [Expr.depth] at hover
    rw [Expr.size, Nat.add_assoc, steps_add]
    by_cases hroom : stack.length + l.depth ≤ f.maxStack
    · have hoverRight : f.maxStack <
          (Value.int (Int32.ofInt (l.value env)) :: stack).length + r.depth := by
        rw [List.length_cons]
        omega
      obtain ⟨b, pc, op', hsteps⟩ := ihr hright hr hoverRight
      rw [steps_value hleft hl hroom]
      dsimp only
      rw [steps_add, hsteps]
      exact ⟨b, pc, op', rfl⟩
    · obtain ⟨b, pc, op', hsteps⟩ := ihl hleft hl (Nat.not_le.1 hroom)
      rw [hsteps]
      exact ⟨b, pc, op', rfl⟩

end Expressions

/-- The code of an expression pushes its value modulo 2 ^ 32, with one instruction for each node, if
there is room on the stack for its depth; otherwise it ends in an overflow of the stack. -/
theorem expressions_evaluate (setting : Setting) (frame : Frame) (store : Store) (e : Expr)
    (before after : Bytes) (env : UInt8 → Int32)
    (hcode : frame.code = before ++ (e.bytes ++ after)) (hpc : frame.pc = before.length)
    (hslots : e.Holds env frame.locals) (hcancel : setting.limits.cancelAfter = none)
    (hbudget : setting.limits.budget ≤ 0 ∨ e.size ≤ setting.limits.budget) :
    (frame.depth + e.depth ≤ frame.maxStack →
      ∃ t, ∃ result : Int32, State.run setting e.size { frame, store } = (t, none) ∧
        result.toInt = (e.value env).bmod (2 ^ 32) ∧
        t.frame = { frame with
          pc := frame.pc + e.bytes.length
          stack := .int result :: frame.stack
          executed := frame.executed + e.size } ∧
        t.store = store ∧ t.executed = e.size) ∧
    (frame.maxStack < frame.depth + e.depth → ∀ rounds, e.size ≤ rounds →
      ∃ t pc op, State.run setting rounds { frame, store } = (t, some (.stopped
        (.fault frame.method pc op (.stackOverflow pc frame.maxStack))))) := by
  let s : State := { frame, store }
  have hstart : s.activation =
      spot frame before.length frame.executed frame.locals frame.stack store := by
    rw [spot, ← hpc]
    rfl
  have hfresh : s.Counted setting 0 := fresh_counted frame store
  refine ⟨fun hroom => ?_, fun hover rounds hrounds => ?_⟩
  · have hsteps : s.activation.steps setting.program e.size = _ :=
      hstart ▸ steps_value hcode hslots hroom
    obtain ⟨t, hrun, ht, hcounted⟩ := run_of_steps hfresh hcancel (le_allowance hbudget) hsteps
    refine ⟨t, _, hrun, Int32.toInt_ofInt, ?_, congrArg Activation.store ht,
      (hcounted rfl).executed⟩
    have hframe : t.frame = _ := congrArg Activation.frame ht
    rw [hframe]
    simp [spot, hpc]
  · have hsteps : ∃ b pc op, s.activation.steps setting.program e.size = (b, some (.stopped
        (.fault frame.method pc op (.stackOverflow pc frame.maxStack)))) :=
      hstart ▸ steps_overflow hcode hslots hover
    obtain ⟨b, pc, op, hsteps⟩ := hsteps
    obtain ⟨t, hrun, -, -⟩ := run_of_steps hfresh hcancel (le_allowance hbudget) hsteps
    have hended := run_ended setting s hrounds (by rw [hrun]; exact Option.some_ne_none _)
    exact ⟨t, pc, op, hended.trans hrun⟩

def lessSuccessor : Expr :=
  .binary .sub (.operand (.slot 4)) (.binary .add (.operand (.const 1)) (.operand (.slot 4)))

/-- A frame in which `lessSuccessor` is computed for the largest integer, above another value. -/
def evaluating (maxStack : Nat) : Frame where
  code := lessSuccessor.bytes
  maxStack := maxStack
  locals := [.void, .void, .void, .void, .int Int32.maxValue]
  stack := [.str (utf8 "below")]

/-- The sum does not fit into 32 bits, and still the difference is right; with room for one value
less the stack overflows. -/
theorem lessSuccessor_evaluates :
    (∃ t, State.run {} 5 { frame := evaluating 4, store := {} } = (t, none) ∧
      t.frame.stack = [.int (-1), .str (utf8 "below")] ∧ t.executed = 5) ∧
    ∃ t pc op, State.run {} 5 { frame := evaluating 3, store := {} } =
      (t, some (.stopped (.fault [] pc op (.stackOverflow pc 3)))) := by
  let env : UInt8 → Int32 := fun _ => Int32.maxValue
  have hslots : lessSuccessor.Holds env (evaluating 4).locals := by
    simp [Expr.Holds, lessSuccessor, Expr.slots, evaluating, env]
  have hvalue : (lessSuccessor.value env).bmod (2 ^ 32) = (-1 : Int32).toInt := by decide
  obtain ⟨t, result, hrun, hresult, hframe, -, hexecuted⟩ := (expressions_evaluate {}
    (evaluating 4) {} lessSuccessor [] [] env rfl rfl hslots rfl (Or.inr (by decide))).1 (by decide)
  have hover := (expressions_evaluate {} (evaluating 3) {} lessSuccessor [] [] env rfl rfl hslots
    rfl (Or.inr (by decide))).2 (by decide)
  obtain rfl : result = -1 := Int32.toInt_inj.1 (hresult.trans hvalue)
  exact ⟨⟨t, hrun, by rw [hframe]; rfl, hexecuted⟩, hover 5 (by decide)⟩

end ClassMachine.Machine
