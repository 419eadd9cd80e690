import ClassMachine.Machine.Decode
import ClassMachine.Machine.Disassembly
import ClassMachine.Machine.Execute

/-!
Running a frame. Every round checks the budget, now and then asks whether the run is cancelled,
and executes one instruction; a run is a number of rounds, or fewer if it comes to an end.
-/

namespace ClassMachine.Machine

structure Limits where
  /-- The number of instructions that may be executed; none is set when it is not positive. -/
  budget : Int := 10000000
  /-- The number of instructions between two looks for a cancellation; the default stands for
  every number below 1. -/
  interval : Int := 1024
  /-- After how many looks the run is found cancelled. -/
  cancelAfter : Option Nat := none

namespace Limits

def exhausted (l : Limits) (executed : Nat) : Prop := 0 < l.budget ∧ l.budget ≤ executed

instance (l : Limits) (executed : Nat) : Decidable (l.exhausted executed) :=
  inferInstanceAs (Decidable (_ ∧ _))

def every (l : Limits) : Nat := if l.interval < 1 then 1024 else l.interval.toNat

def cancelled (l : Limits) (looks : Nat) : Bool :=
  match l.cancelAfter with
  | some n => n ≤ looks
  | none => false

/-- A number of rounds in which every run with a budget comes to an end, and which no run without
one takes in practice. -/
def rounds (l : Limits) : Nat := if 0 < l.budget then l.budget.toNat + 1 else Nat.pow 2 62

end Limits

structure Setting where
  program : Program := {}
  limits : Limits := {}
  tracing : Bool := false

structure State where
  frame : Frame
  store : Store
  /-- The number of instructions executed, in other frames too. -/
  executed : Nat := 0
  looks : Nat := 0
  trace : List Bytes := []

inductive Outcome
  | returned (result : Value)
  | stopped (reason : Stop)

/-- The state after an instruction, which stands at the program counter. -/
def State.after (s : State) (i : Instruction) :
    EStateM.Result Cause Activation Control → State × Option Outcome
  | .ok .next ⟨frame, store⟩ =>
    ({ s with frame := { frame with pc := s.frame.pc + i.length }, store }, none)
  | .ok (.jump target) ⟨frame, store⟩ =>
    ({ s with frame := { frame with pc := target }, store }, none)
  | .ok (.done v) ⟨frame, store⟩ => ({ s with frame, store }, some (.returned v))
  | .error cause ⟨frame, store⟩ =>
    ({ s with frame, store }, some (.stopped (.fault frame.method s.frame.pc i.opcode cause)))

/-- Where frames are run. -/
class Running (m : Type → Type) extends Listing m where
  execute (program : Program) (i : Instruction) (a : Activation) :
    m (EStateM.Result Cause Activation Control)

instance : Running Id where
  execute program i a := Machine.execute program i a

namespace Running
variable {m : Type → Type} [Monad m] [Running m] (setting : Setting)

def trace (s : State) (i : Instruction) : m (List Bytes) := do
  if setting.tracing then
    let text ← Listing.instructionText setting.program.pool s.frame.pc i
    pure ((s.frame.method ++ utf8 " " ++ text ++ utf8 s!" [depth {s.frame.depth}]") :: s.trace)
  else pure s.trace

def count (s : State) (i : Instruction) : m State := do
  let trace ← trace setting s i
  pure { s with
    frame := { s.frame with executed := s.frame.executed + 1 },
    executed := s.executed + 1,
    trace }

def advance (s : State) : m (State × Option Outcome) := do
  match ← Listing.decode s.frame.code s.frame.pc with
  | .error cause => pure (s, some (.stopped (.fault s.frame.method s.frame.pc cause.opcode cause)))
  | .ok i =>
    let counted ← count setting s i
    let result ← execute setting.program i ⟨counted.frame, counted.store⟩
    pure (counted.after i result)

def round (s : State) : m (State × Option Outcome) :=
  if setting.limits.exhausted s.executed then
    pure (s, some (.stopped (.budget setting.limits.budget s.frame.pc)))
  else if s.executed % setting.limits.every = 0 then
    let looked := { s with looks := s.looks + 1 }
    if setting.limits.cancelled s.looks then pure (looked, some (.stopped .cancelled))
    else advance setting looked
  else advance setting s

/-- At most `n` rounds of a run; there is no outcome yet if it takes more. -/
def run : Nat → State → m (State × Option Outcome)
  | 0, s => pure (s, none)
  | n + 1, s => do
    match ← round setting s with
    | (s, none) => run n s
    | ended => pure ended

end Running

namespace State
variable (setting : Setting)

def count (s : State) (i : Instruction) : State := Id.run (Running.count setting s i)

def advance (s : State) : State × Option Outcome := Id.run (Running.advance setting s)

def round (s : State) : State × Option Outcome := Id.run (Running.round setting s)

def run (n : Nat) (s : State) : State × Option Outcome := Id.run (Running.run setting n s)

end State

end ClassMachine.Machine
